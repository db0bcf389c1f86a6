import Melis.Ccmu.Periph

/-!
# The peripheral clocks of sun8iw19

The gates in the table of `clk_sun8iw19.c`.
-/

namespace Melis.Ccmu.Sun8iw19

inductive PeriphClk
  | cpu
  | axi
  | cpuapb
  | psi
  | ahb1
  | ahb2
  | ahb3
  | apb1
  | apb2
  | mbus
  | de
  | g2d
  | ce
  | ve
  | eise
  | nna
  | nna_rst
  | dma
  | hstimer
  | avs
  | dbgsys
  | pwm
  | iommu
  | sdram
  | sdmmc0_mod
  | sdmmc0_rst
  | sdmmc0_bus
  | sdmmc1_mod
  | sdmmc1_rst
  | sdmmc1_bus
  | sdmmc2_mod
  | sdmmc2_rst
  | sdmmc2_bus
  | uart0
  | uart1
  | uart2
  | uart3
  | twi0
  | twi1
  | twi2
  | twi3
  | spi0
  | spi1
  | spi2
  | ephy_25m
  | gmac
  | gpadc
  | ths
  | i2s0
  | i2s1
  | codec_1x
  | codec_4x
  | usbphy0
  | usbohci0
  | usbohci0_12m
  | usbehci0
  | usbotg
  | mipi_dphy0
  | mipi_host0
  | display_top
  | tcon_lcd
  | csi_top
  | csi_master0
  | csi_master1
  | isp
  | dspo
  | pio
deriving DecidableEq

/-- `codec`, `csi` and `mipi`. -/
def com_gates : Fin 3 → sunxi_clk_comgate
  | 0 => ⟨shareFlag .bus ||| shareFlag .rst⟩
  | 1 => ⟨shareFlag .bus ||| shareFlag .rst ||| shareFlag .mbus⟩
  | 2 => ⟨shareFlag .bus ||| shareFlag .rst ||| shareFlag .mbus⟩

def CCU_REG_BASE : Nat := 0x03001000

/-- A register by its offset; there is none at `0` with a gate. -/
def reg (offset : Nat) : Nat := if offset = 0 then 0 else CCU_REG_BASE + offset

/-- The registers for the module gate, the reset, the bus gate and the DRAM gate, the bits in
them, and the common gate with the place in it. -/
def SUNXI_CLK_PERIPH_CONFIG (enable reset bus drm enb_shift rst_shift bus_shift ddr_shift : Nat)
    (com_gate : Option (Fin 3)) (com_gate_off : Nat) : sunxi_clk_periph (Fin 3) :=
  ⟨⟨reg enable, reg reset, reg bus, reg drm, enb_shift, rst_shift, bus_shift, ddr_shift⟩, com_gate,
    com_gate_off⟩

def config : PeriphClk → sunxi_clk_periph (Fin 3)
  | .cpu => SUNXI_CLK_PERIPH_CONFIG 0 0 0 0 0 0 0 0 none 0
  | .axi => SUNXI_CLK_PERIPH_CONFIG 0 0 0 0 0 0 0 0 none 0
  | .cpuapb => SUNXI_CLK_PERIPH_CONFIG 0 0 0 0 0 0 0 0 none 0
  | .psi => SUNXI_CLK_PERIPH_CONFIG 0 0x079C 0x079C 0 0 16 0 0 none 0
  | .ahb1 => SUNXI_CLK_PERIPH_CONFIG 0 0 0 0 0 0 0 0 none 0
  | .ahb2 => SUNXI_CLK_PERIPH_CONFIG 0 0 0 0 0 0 0 0 none 0
  | .ahb3 => SUNXI_CLK_PERIPH_CONFIG 0 0 0 0 0 0 0 0 none 0
  | .apb1 => SUNXI_CLK_PERIPH_CONFIG 0 0 0 0 0 0 0 0 none 0
  | .apb2 => SUNXI_CLK_PERIPH_CONFIG 0 0 0 0 0 0 0 0 none 0
  | .mbus => SUNXI_CLK_PERIPH_CONFIG 0 0x0540 0 0 0 30 0 0 none 0
  | .de => SUNXI_CLK_PERIPH_CONFIG 0x0600 0x060C 0x060C 0 31 16 0 0 none 0
  | .g2d => SUNXI_CLK_PERIPH_CONFIG 0x0630 0x063C 0x063C 0x0804 31 16 0 10 none 0
  | .ce => SUNXI_CLK_PERIPH_CONFIG 0x0680 0x068C 0x068C 0x0804 31 16 0 2 none 0
  | .ve => SUNXI_CLK_PERIPH_CONFIG 0x0690 0x069C 0x069C 0x0804 31 16 0 1 none 0
  | .eise => SUNXI_CLK_PERIPH_CONFIG 0x06D0 0x06DC 0x06DC 0x0804 31 16 0 23 none 0
  | .nna => SUNXI_CLK_PERIPH_CONFIG 0x06E0 0x06EC 0x06EC 0 31 16 0 0 none 0
  | .nna_rst => SUNXI_CLK_PERIPH_CONFIG 0 0x06E0 0 0 0 30 0 0 none 0
  | .dma => SUNXI_CLK_PERIPH_CONFIG 0 0x070C 0x070C 0x0804 0 16 0 0 none 0
  | .hstimer => SUNXI_CLK_PERIPH_CONFIG 0 0x073C 0x073C 0 0 16 0 0 none 0
  | .avs => SUNXI_CLK_PERIPH_CONFIG 0x0740 0 0 0 31 0 0 0 none 0
  | .dbgsys => SUNXI_CLK_PERIPH_CONFIG 0 0x078C 0x078C 0 0 16 0 0 none 0
  | .pwm => SUNXI_CLK_PERIPH_CONFIG 0 0x07AC 0x07AC 0 0 16 0 0 none 0
  | .iommu => SUNXI_CLK_PERIPH_CONFIG 0 0 0x07BC 0 0 0 0 0 none 0
  | .sdram => SUNXI_CLK_PERIPH_CONFIG 0 0x080C 0x080C 0 0 16 0 0 none 0
  | .sdmmc0_mod => SUNXI_CLK_PERIPH_CONFIG 0x0830 0 0 0 31 0 0 0 none 0
  | .sdmmc0_rst => SUNXI_CLK_PERIPH_CONFIG 0 0x084C 0 0 0 16 0 0 none 0
  | .sdmmc0_bus => SUNXI_CLK_PERIPH_CONFIG 0 0 0x084C 0 0 0 0 0 none 0
  | .sdmmc1_mod => SUNXI_CLK_PERIPH_CONFIG 0x0834 0 0 0 31 0 0 0 none 0
  | .sdmmc1_rst => SUNXI_CLK_PERIPH_CONFIG 0 0x084C 0 0 0 17 0 0 none 0
  | .sdmmc1_bus => SUNXI_CLK_PERIPH_CONFIG 0 0 0x084C 0 0 0 1 0 none 0
  | .sdmmc2_mod => SUNXI_CLK_PERIPH_CONFIG 0x0838 0 0 0 31 0 0 0 none 0
  | .sdmmc2_rst => SUNXI_CLK_PERIPH_CONFIG 0 0x084C 0 0 0 18 0 0 none 0
  | .sdmmc2_bus => SUNXI_CLK_PERIPH_CONFIG 0 0 0x084C 0 0 0 2 0 none 0
  | .uart0 => SUNXI_CLK_PERIPH_CONFIG 0 0x090C 0x090C 0 0 16 0 0 none 0
  | .uart1 => SUNXI_CLK_PERIPH_CONFIG 0 0x090C 0x090C 0 0 17 1 0 none 0
  | .uart2 => SUNXI_CLK_PERIPH_CONFIG 0 0x090C 0x090C 0 0 18 2 0 none 0
  | .uart3 => SUNXI_CLK_PERIPH_CONFIG 0 0x090C 0x090C 0 0 19 3 0 none 0
  | .twi0 => SUNXI_CLK_PERIPH_CONFIG 0 0x091C 0x091C 0 0 16 0 0 none 0
  | .twi1 => SUNXI_CLK_PERIPH_CONFIG 0 0x091C 0x091C 0 0 17 1 0 none 0
  | .twi2 => SUNXI_CLK_PERIPH_CONFIG 0 0x091C 0x091C 0 0 18 2 0 none 0
  | .twi3 => SUNXI_CLK_PERIPH_CONFIG 0 0x091C 0x091C 0 0 19 3 0 none 0
  | .spi0 => SUNXI_CLK_PERIPH_CONFIG 0x0940 0x096C 0x096C 0 31 16 0 0 none 0
  | .spi1 => SUNXI_CLK_PERIPH_CONFIG 0x0944 0x096C 0x096C 0 31 17 1 0 none 0
  | .spi2 => SUNXI_CLK_PERIPH_CONFIG 0x0948 0x096C 0x096C 0 31 18 2 0 none 0
  | .ephy_25m => SUNXI_CLK_PERIPH_CONFIG 0x0970 0 0x0970 0 31 0 30 0 none 0
  | .gmac => SUNXI_CLK_PERIPH_CONFIG 0 0x097C 0x097C 0 0 16 0 0 none 0
  | .gpadc => SUNXI_CLK_PERIPH_CONFIG 0 0x09EC 0x09EC 0 0 16 0 0 none 0
  | .ths => SUNXI_CLK_PERIPH_CONFIG 0 0x09FC 0x09FC 0 0 16 0 0 none 0
  | .i2s0 => SUNXI_CLK_PERIPH_CONFIG 0x0A10 0x0A1C 0x0A1C 0 31 16 0 0 none 0
  | .i2s1 => SUNXI_CLK_PERIPH_CONFIG 0x0A14 0x0A1C 0x0A1C 0 31 17 1 0 none 0
  | .codec_1x => SUNXI_CLK_PERIPH_CONFIG 0x0A50 0x0A5C 0x0A5C 0 31 16 0 0 (some 0) 0
  | .codec_4x => SUNXI_CLK_PERIPH_CONFIG 0x0A54 0x0A5C 0x0A5C 0 31 16 0 0 (some 0) 1
  | .usbphy0 => SUNXI_CLK_PERIPH_CONFIG 0x0A70 0x0A70 0 0 29 30 0 0 none 0
  | .usbohci0 => SUNXI_CLK_PERIPH_CONFIG 0x0A70 0x0A8C 0x0A8C 0 31 16 0 0 none 0
  | .usbohci0_12m => SUNXI_CLK_PERIPH_CONFIG 0 0 0 0 0 0 0 0 none 0
  | .usbehci0 => SUNXI_CLK_PERIPH_CONFIG 0 0x0A8C 0x0A8C 0 0 20 4 0 none 0
  | .usbotg => SUNXI_CLK_PERIPH_CONFIG 0 0x0A8C 0x0A8C 0 0 24 8 0 none 0
  | .mipi_dphy0 => SUNXI_CLK_PERIPH_CONFIG 0x0B20 0x0B4C 0x0B4C 0 31 16 0 0 (some 2) 0
  | .mipi_host0 => SUNXI_CLK_PERIPH_CONFIG 0x0B24 0x0B4C 0x0B4C 0 31 16 0 0 (some 2) 1
  | .display_top => SUNXI_CLK_PERIPH_CONFIG 0 0x0B5C 0x0B5C 0 0 16 0 0 none 0
  | .tcon_lcd => SUNXI_CLK_PERIPH_CONFIG 0x0B60 0x0B7C 0x0B7C 0 31 16 0 0 none 0
  | .csi_top => SUNXI_CLK_PERIPH_CONFIG 0x0C04 0x0C2C 0x0C2C 0x0804 31 16 0 8 (some 1) 0
  | .csi_master0 => SUNXI_CLK_PERIPH_CONFIG 0x0C08 0x0C2C 0x0C2C 0x0804 31 16 0 8 (some 1) 1
  | .csi_master1 => SUNXI_CLK_PERIPH_CONFIG 0x0C0C 0x0C2C 0x0C2C 0x0804 31 16 0 8 (some 1) 2
  | .isp => SUNXI_CLK_PERIPH_CONFIG 0x0C20 0 0 0x0804 31 16 0 9 none 0
  | .dspo => SUNXI_CLK_PERIPH_CONFIG 0x0C60 0x0C6C 0x0C6C 0x0804 31 16 0 27 none 0
  | .pio => SUNXI_CLK_PERIPH_CONFIG 0 0 0 0 0 0 0 0 none 0

def clocks : Clocks (Fin 3) PeriphClk := ⟨com_gates, config⟩

def PeriphClk.all : List PeriphClk :=
  [.cpu, .axi, .cpuapb, .psi, .ahb1, .ahb2, .ahb3, .apb1, .apb2, .mbus, .de, .g2d, .ce, .ve,
    .eise, .nna, .nna_rst, .dma, .hstimer, .avs, .dbgsys, .pwm, .iommu, .sdram, .sdmmc0_mod,
    .sdmmc0_rst, .sdmmc0_bus, .sdmmc1_mod, .sdmmc1_rst, .sdmmc1_bus, .sdmmc2_mod, .sdmmc2_rst,
    .sdmmc2_bus, .uart0, .uart1, .uart2, .uart3, .twi0, .twi1, .twi2, .twi3, .spi0, .spi1, .spi2,
    .ephy_25m, .gmac, .gpadc, .ths, .i2s0, .i2s1, .codec_1x, .codec_4x, .usbphy0, .usbohci0,
    .usbohci0_12m, .usbehci0, .usbotg, .mipi_dphy0, .mipi_host0, .display_top, .tcon_lcd,
    .csi_top, .csi_master0, .csi_master1, .isp, .dspo, .pio]

theorem PeriphClk.mem_all (i : PeriphClk) : i ∈ all := by cases i <;> decide

end Melis.Ccmu.Sun8iw19
