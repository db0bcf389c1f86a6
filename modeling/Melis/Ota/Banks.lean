import Melis.Ota.Upgrade

/-!
# Bank selection over an upgrade

A `Board` is the environment in flash and the files. A run makes any
`aw_upgrade_slice` and `aw_upgrade_end` calls; the `Fate` of a call says how
everything it relies on ends. `StepSafe` is what a call may do, given the bank
that was booted. It holds in every run whose calls meet `StepOk`: a slice for
the rtos needs an environment that opens and names a bank, and the end of an
upgrade needs one whose `rtosAB_next` has a single definition.
-/

namespace Melis.Ota

open Lib

inductive Bank where
  | A
  | B
  deriving DecidableEq

def Bank.other : Bank → Bank
  | A => B
  | B => A

/-- The value that names the bank in the environment. -/
def Bank.name : Bank → CStr
  | A => ['A']
  | B => ['B']

def Bank.dev : Bank → CStr
  | A => devBootA
  | B => devBootB

/-- The bank a value of `rtosAB_now` names: only its first character counts. -/
def bankOf (now : CStr) : Option Bank :=
  if ['A'] <+: now then some .A else if ['B'] <+: now then some .B else none

/-- The bank the environment says is running. -/
def booted (env : Env) : Option Bank :=
  match fwGetenv env rtosABNow with
  | some (some now) => bankOf now
  | _ => none

structure Board where
  env : Env
  world : World

inductive Call where
  | slice (s : Slice)
  | finish

/-- How the environment and the devices behave during one call. -/
structure Fate where
  /-- `fw_env_open` succeeds. -/
  opens : Bool
  /-- What the stack holds where `target_rtos` will be. -/
  stack : CStr
  io : Nat → Action → Io
  /-- The environment found in flash after its own storage was written as a file. -/
  overwritten : Env
  /-- `fw_env_flush` gets the environment to flash. -/
  flushed : Bool

section

variable (envSize : Nat) (storesEnv : CStr → Bool)

/-- One call. `storesEnv f`: writing the file `f` reaches the storage of the environment. -/
def call (b : Board) : Call → Fate → Option (Board × Int)
  | .slice s, fate => do
    let (w, ret) ← awUpgradeSlice fate.opens b.env fate.stack fate.io b.world s
    let env := if (w.written.drop b.world.written.length).any storesEnv then fate.overwritten
      else b.env
    return ({ env, world := w }, ret)
  | .finish, fate => do
    let (env, ret) ← awUpgradeEnd envSize fate.opens fate.flushed b.env
    return ({ b with env }, ret)

def upgrade : Machine Board (Call × Fate) where
  next b i := (call envSize storesEnv b i.1 i.2).map Prod.fst

/-- A slice for the rtos goes to the bank that is not the booted one, or the call
returns an error and writes nothing; the end of the upgrade switches to that bank only. -/
def StepSafe (bank : Option Bank) (b : Board) : Call × Fate → Prop
  | (.slice s, fate) => s.target = rtos →
    ∃ b' ret, call envSize storesEnv b (.slice s) fate = some (b', ret) ∧
      ((∃ k, bank = some k ∧ WritesOnly k.other.dev b.world b'.world) ∨
        (ret ≠ 0 ∧ b'.world = b.world))
  | (.finish, fate) =>
    ∃ b' ret, call envSize storesEnv b .finish fate = some (b', ret) ∧
      (fwGetenv b'.env rtosABNext = fwGetenv b.env rtosABNext ∨
        ∃ k, bank = some k ∧ fwGetenv b'.env rtosABNext = some (some k.other.name))

/-- `aw_upgrade_end` stays inside the environment and replaces all of `rtosAB_next`. -/
structure Switchable (env : Env) : Prop where
  terminated : env.terminated = true
  next : fwGetenv env rtosABNext ≠ none
  single : fwGetenv (env.delete rtosABNext) rtosABNext = some none
  bootcount : fwGetenv env bootcount ≠ none
  upgradeAvailable : fwGetenv env upgradeAvailable ≠ none

/-- The environment and the arguments a call needs. -/
def StepOk (b : Board) : Call × Fate → Prop
  | (.slice s, fate) =>
    if s.target = rtos then
      fate.opens = true ∧ (s.buffer.isSome → s.size.toNat ≤ 2 ^ 31 - chunk) ∧
        ∃ k, booted b.env = some k ∧ storesEnv k.other.dev = false
    else storesEnv s.target = false
  | (.finish, fate) => fate.opens = true →
    ∃ now, fwGetenv b.env rtosABNow = some (some now) ∧ (bankOf now ≠ none → Switchable b.env)

end

/-! ## Slices -/

section

variable {env : Env} {bank : Bank} {w : World}

theorem getRtosToUpgrade_eq (h : booted env = some bank) (stack : CStr) :
    getRtosToUpgrade true env stack = some (bank.other.dev, 0) := by
  unfold booted at h
  split at h
  next now hnow =>
    unfold bankOf at h
    simp only [getRtosToUpgrade, hnow, if_true]
    split at h
    next hA =>
      cases h
      rw [if_pos hA]
      rfl
    next hA =>
      split at h
      next hB =>
        cases h
        rw [if_neg hA, if_pos hB]
        rfl
      · cases h
  · cases h

theorem Slice.copyable {s : Slice} (hmax : s.buffer.isSome → s.size.toNat ≤ 2 ^ 31 - chunk) :
    Copyable s.buffer s.size.toInt := by
  have hchunk : chunk = 16384 := rfl
  refine ⟨by have := s.size.toInt_lt; omega, fun buf hbuf => ?_⟩
  have hlen := s.buffer_length buf hbuf
  have hle := hmax (Option.isSome_of_mem hbuf)
  have hint : s.size.toInt = s.size.toNat := BitVec.toInt_eq_toNat_of_lt (by omega)
  omega

/-- With a bank to go to, a slice for the rtos returns, and writes to that bank only. -/
theorem awUpgradeSlice_rtos (w : World) {s : Slice} (hs : s.target = rtos) (hb : booted env = some bank)
    (hmax : s.buffer.isSome → s.size.toNat ≤ 2 ^ 31 - chunk) (stack : CStr)
    (io : Nat → Action → Io) :
    ∃ w' ret, awUpgradeSlice true env stack io w s = some (w', ret) ∧
      WritesOnly bank.other.dev w w' := by
  obtain ⟨w', ret, h⟩ : ∃ w' ret, upgradeSlice io w defaultSourceFile s.buffer bank.other.dev
      s.offset.toInt s.size.toInt = some (w', ret) := upgradeSlice_returns (s.copyable hmax) w
  refine ⟨w', ret, ?_, upgradeSlice_writesOnly h⟩
  rw [awUpgradeSlice, if_pos hs, getRtosToUpgrade_eq hb]
  exact h

/-- Any other slice writes to the file it names only. -/
theorem awUpgradeSlice_file {s : Slice} (hs : s.target ≠ rtos) {opens : Bool} {stack : CStr}
    {io : Nat → Action → Io} {w' : World} {ret : Int}
    (h : awUpgradeSlice opens env stack io w s = some (w', ret)) : WritesOnly s.target w w' := by
  rw [awUpgradeSlice, if_neg hs] at h
  split at h
  · exact upgradeSlice_writesOnly h
  · cases h
    exact .refl _ _

theorem WritesOnly.any_eq_false {dest : CStr} {w' : World} {storesEnv : CStr → Bool}
    (h : WritesOnly dest w w') (hd : storesEnv dest = false) :
    (w'.written.drop w.written.length).any storesEnv = false := by
  obtain ⟨n, hn⟩ := h.written
  rw [hn, List.drop_left, List.any_eq_false]
  intro f hf
  simp [List.eq_of_mem_replicate hf, hd]

end

/-! ## The end of an upgrade -/

section

variable {envSize : Nat} {env env' : Env} {ret : Int}

theorem switchTo_safe {next : CStr} (hv : next ≠ []) (flushed : Bool) (hsw : Switchable env) :
    ∃ env' ret, switchTo envSize flushed env next = some (env', ret) ∧
      booted env' = booted env ∧ (fwGetenv env' rtosABNext = fwGetenv env rtosABNext ∨
        fwGetenv env' rtosABNext = some (some next)) := by
  obtain ⟨e1, r1, h1⟩ : ∃ e r, fwEnvWrite envSize env rtosABNext next = some (e, r) :=
    fwEnvWrite_returns hsw.terminated hsw.next
  unfold switchTo
  simp only [h1, Option.bind_eq_bind, Option.bind_some]
  by_cases hr1 : r1 ≠ 0
  · exact ⟨env, r1, by rw [if_pos hr1]; rfl, rfl, .inl rfl⟩
  rw [if_neg hr1]
  obtain rfl : r1 = 0 := not_not.1 hr1
  have hself := fwEnvWrite_getenv_self (by decide) hv hsw.single h1
  have hb1 : e1.terminated = env.terminated ∧ fwGetenv e1 bootcount = fwGetenv env bootcount :=
    fwEnvWrite_getenv_ne (by decide) (by decide) (by decide) h1
  have hu1 : _ ∧ fwGetenv e1 upgradeAvailable = fwGetenv env upgradeAvailable :=
    fwEnvWrite_getenv_ne (by decide) (by decide) (by decide) h1
  have hn1 : _ ∧ fwGetenv e1 rtosABNow = fwGetenv env rtosABNow :=
    fwEnvWrite_getenv_ne (by decide) (by decide) (by decide) h1
  obtain ⟨e2, r2, h2⟩ : ∃ e r, fwEnvWrite envSize e1 bootcount ['0'] = some (e, r) :=
    fwEnvWrite_returns (hb1.1.trans hsw.terminated) (hb1.2.symm ▸ hsw.bootcount)
  simp only [h2, Option.bind_some]
  by_cases hr2 : r2 ≠ 0
  · exact ⟨env, r2, by rw [if_pos hr2]; rfl, rfl, .inl rfl⟩
  rw [if_neg hr2]
  have hu2 : e2.terminated = e1.terminated ∧
      fwGetenv e2 upgradeAvailable = fwGetenv e1 upgradeAvailable :=
    fwEnvWrite_getenv_ne (by decide) (by decide) (by decide) h2
  have hx2 : _ ∧ fwGetenv e2 rtosABNext = fwGetenv e1 rtosABNext :=
    fwEnvWrite_getenv_ne (by decide) (by decide) (by decide) h2
  have hn2 : _ ∧ fwGetenv e2 rtosABNow = fwGetenv e1 rtosABNow :=
    fwEnvWrite_getenv_ne (by decide) (by decide) (by decide) h2
  obtain ⟨e3, r3, h3⟩ : ∃ e r, fwEnvWrite envSize e2 upgradeAvailable ['1'] = some (e, r) :=
    fwEnvWrite_returns (hu2.1.trans (hb1.1.trans hsw.terminated))
      ((hu2.2.trans hu1.2).symm ▸ hsw.upgradeAvailable)
  simp only [h3, Option.bind_some]
  by_cases hr3 : r3 ≠ 0
  · exact ⟨env, r3, by rw [if_pos hr3]; rfl, rfl, .inl rfl⟩
  rw [if_neg hr3]
  have hx3 : _ ∧ fwGetenv e3 rtosABNext = fwGetenv e2 rtosABNext :=
    fwEnvWrite_getenv_ne (by decide) (by decide) (by decide) h3
  have hn3 : _ ∧ fwGetenv e3 rtosABNow = fwGetenv e2 rtosABNow :=
    fwEnvWrite_getenv_ne (by decide) (by decide) (by decide) h3
  cases flushed with
  | false => exact ⟨env, 0, rfl, rfl, .inl rfl⟩
  | true =>
    refine ⟨e3, 0, rfl, ?_, .inr ?_⟩
    · unfold booted
      rw [hn3.2, hn2.2, hn1.2]
    · rw [hx3.2, hx2.2, hself]

theorem awUpgradeEnd_eq (flushed : Bool) {now : CStr}
    (hnow : fwGetenv env rtosABNow = some (some now)) :
    awUpgradeEnd envSize true flushed env =
      match bankOf now with
      | some k => switchTo envSize flushed env k.other.name
      | none => some (env, -1) := by
  simp only [awUpgradeEnd, hnow, if_true, bankOf]
  by_cases hA : ['A'] <+: now
  · simp only [if_pos hA]
    rfl
  · simp only [if_neg hA]
    split <;> rfl

theorem awUpgradeEnd_safe (envSize : Nat) (flushed : Bool) {now : CStr}
    (hnow : fwGetenv env rtosABNow = some (some now)) (hsw : bankOf now ≠ none → Switchable env) :
    ∃ env' ret, awUpgradeEnd envSize true flushed env = some (env', ret) ∧
      booted env' = booted env ∧ (fwGetenv env' rtosABNext = fwGetenv env rtosABNext ∨
        ∃ k, booted env = some k ∧ fwGetenv env' rtosABNext = some (some k.other.name)) := by
  have hb : booted env = bankOf now := by rw [booted, hnow]
  rw [awUpgradeEnd_eq flushed hnow]
  cases hk : bankOf now with
  | none => exact ⟨env, -1, rfl, rfl, .inl rfl⟩
  | some k =>
    have hname : k.other.name ≠ [] := by cases k <;> exact List.cons_ne_nil _ _
    obtain ⟨env', ret, h, hbe, hnext⟩ : ∃ env' ret, switchTo envSize flushed env k.other.name =
        some (env', ret) ∧ _ := switchTo_safe hname flushed (hsw (by simp [hk]))
    exact ⟨env', ret, h, hbe, hnext.imp_right fun hn => ⟨k, by rw [hb, hk], hn⟩⟩

end

/-! ## Runs -/

section

variable {storesEnv : CStr → Bool} {b b' : Board} {i : Call × Fate}

/-- A call that meets its condition keeps the booted bank. -/
theorem next_booted {envSize : Nat} (hok : StepOk storesEnv b i)
    (hn : (upgrade envSize storesEnv).next b i = some b') : booted b'.env = booted b.env := by
  obtain ⟨c, fate⟩ := i
  obtain ⟨⟨b', ret⟩, h, rfl⟩ := Option.map_eq_some_iff.1 hn
  cases c with
  | slice s =>
    obtain ⟨⟨w', ret⟩, hw, h⟩ := Option.bind_eq_some_iff.1 h
    cases h
    have hstore : (w'.written.drop b.world.written.length).any storesEnv = false := by
      by_cases hs : s.target = rtos
      · rw [StepOk, if_pos hs] at hok
        obtain ⟨hopens, hmax, k, hk, hstore⟩ := hok
        obtain ⟨w'', ret', hw', hwr⟩ := awUpgradeSlice_rtos b.world hs hk hmax fate.stack fate.io
        rw [hopens, hw'] at hw
        cases hw
        exact hwr.any_eq_false hstore
      · rw [StepOk, if_neg hs] at hok
        exact (awUpgradeSlice_file hs hw).any_eq_false hok
    simp [hstore]
  | finish =>
    obtain ⟨⟨env', ret⟩, he, h⟩ := Option.bind_eq_some_iff.1 h
    cases h
    cases hopens : fate.opens with
    | false =>
      rw [hopens] at he
      cases he
      rfl
    | true =>
      obtain ⟨now, hnow, hsw⟩ := hok hopens
      obtain ⟨env'', ret', he', hb, -⟩ := awUpgradeEnd_safe envSize fate.flushed hnow hsw
      rw [hopens, he'] at he
      cases he
      exact hb

/-- A call that meets its condition is safe for the bank booted before it. -/
theorem stepSafe_of_stepOk (envSize : Nat) (hok : StepOk storesEnv b i) :
    StepSafe envSize storesEnv (booted b.env) b i := by
  obtain ⟨c, fate⟩ := i
  cases c with
  | slice s =>
    intro hs
    rw [StepOk, if_pos hs] at hok
    obtain ⟨hopens, hmax, k, hk, -⟩ := hok
    obtain ⟨w', ret, hw, hwr⟩ := awUpgradeSlice_rtos b.world hs hk hmax fate.stack fate.io
    exact ⟨_, ret, by simp only [call, hopens, hw]; rfl, .inl ⟨k, hk, hwr⟩⟩
  | finish =>
    cases hopens : fate.opens with
    | false => exact ⟨b, -1, by simp [call, hopens, awUpgradeEnd], .inl rfl⟩
    | true =>
      obtain ⟨now, hnow, hsw⟩ := hok hopens
      obtain ⟨env', ret, he, -, hnext⟩ := awUpgradeEnd_safe envSize fate.flushed hnow hsw
      exact ⟨{ b with env := env' }, ret, by simp [call, hopens, he], hnext⟩

/-- In a run whose calls all meet their conditions, every call is safe for the
bank that was booted when the run began. -/
theorem upgrade_safe (envSize : Nat) {b₀ : Board} {calls p : List (Call × Fate)}
    (hok : (upgrade envSize storesEnv).Meets (StepOk storesEnv) b₀ calls)
    (hp : p ++ [i] <+: calls) (hr : (upgrade envSize storesEnv).run b₀ p = some b) :
    StepSafe envSize storesEnv (booted b₀.env) b i := by
  obtain ⟨q, rfl⟩ := hp
  have hpre := hok.append_left
  have hbooted : booted b.env = booted b₀.env :=
    Machine.run_inv (I := fun b => booted b.env = booted b₀.env)
      (fun s j s' hI hC hn => (next_booted hC hn).trans hI) rfl hpre.append_left hr
  rw [← hbooted]
  exact stepSafe_of_stepOk envSize (hpre.append_right hr).1

/-! ## An environment that names no bank -/

/-- Every call on the devices succeeds; a file of one byte is the source. -/
def ioOk : Io where
  stSize := some 1
  mallocIn := true
  mallocVerify := true
  openSource := true
  openDest := true
  lseek := true
  readSource _ := some 1
  write _ := (1, 1)
  readDest _ := 1

/-- One byte for the rtos. -/
def oneByte : Slice where
  target := rtos
  buffer := some [7]
  offset := 0
  size := 1
  buffer_length := by rintro b ⟨rfl⟩; rfl

/-- The stack still holds the name of the bank an earlier slice went to. -/
def leftover (opens : Bool) (stack : CStr) : Fate where
  opens := opens
  stack := stack
  io _ _ := ioOk
  overwritten := ⟨[], true⟩
  flushed := true

def blank : World where
  file _ _ := 0
  written := []

def define (name value : CStr) : CStr := name ++ '=' :: value

def boardA : Board := ⟨⟨[define rtosABNow ['A'], define rtosABNext ['A']], true⟩, blank⟩

theorem upgrade_safe_bankA :
    ∃ b, (upgrade 100 fun _ => false).run boardA [(.slice oneByte, leftover true [])] = some b ∧
      StepSafe 100 (fun _ => false) (booted boardA.env) b (.finish, leftover true []) := by
  have hrun : ((upgrade 100 fun _ => false).run boardA
      [(.slice oneByte, leftover true [])]).isSome := by decide
  obtain ⟨b, hb⟩ := Option.isSome_iff_exists.1 hrun
  have hok : (upgrade 100 fun _ => false).Meets (StepOk fun _ => false) boardA
      ([(.slice oneByte, leftover true [])] ++ [(.finish, leftover true [])]) := by
    refine ⟨⟨rfl, fun _ => by decide, .A, by decide, rfl⟩, fun b hb => ?_⟩
    cases hb
    refine ⟨fun _ => ⟨['A'], by decide, fun _ => ⟨rfl, ?_, ?_, ?_, ?_⟩⟩, fun _ _ => trivial⟩
    all_goals decide
  exact ⟨b, hb, upgrade_safe 100 hok List.prefix_rfl hb⟩

/-- A slice that is reported written, with a write to a file that is not the other bank. -/
theorem not_stepSafe {bank : Option Bank} {s : Slice} {fate : Fate} (log : List CStr)
    (hs : s.target = rtos)
    (hcall : (call 100 storesEnv b (.slice s) fate).map (fun r => (r.1.world.written, r.2)) =
      some (log, 0))
    (hlog : ∀ k, bank = some k → ∃ f ∈ log.drop b.world.written.length, f ≠ k.other.dev) :
    ¬ StepSafe 100 storesEnv bank b (.slice s, fate) := by
  intro h
  obtain ⟨b', ret, hc, hsafe⟩ := h hs
  rw [hc, Option.map_some, Option.some.injEq, Prod.mk.injEq] at hcall
  obtain ⟨rfl, rfl⟩ := hcall
  rcases hsafe with ⟨k, hk, hw⟩ | ⟨hret, -⟩
  · obtain ⟨n, hn⟩ := hw.written
    obtain ⟨f, hf, hne⟩ := hlog k hk
    rw [hn, List.drop_left] at hf
    exact hne (List.eq_of_mem_replicate hf)
  · exact hret rfl

/-- With no bank named the call faults. With an unknown one, and when the environment does
not open, the slice goes to the bank an earlier call left on the stack, here the running one. -/
theorem upgrade_slice_follows_stack :
    ¬ StepSafe 100 (fun _ => false) (booted ⟨[], true⟩) ⟨⟨[], true⟩, blank⟩
        (.slice oneByte, leftover true devBootA) ∧
      ¬ StepSafe 100 (fun _ => false) (booted ⟨[define rtosABNow ['C']], true⟩)
        ⟨⟨[define rtosABNow ['C']], true⟩, blank⟩ (.slice oneByte, leftover true devBootA) ∧
      ¬ StepSafe 100 (fun _ => false) (booted boardA.env) boardA
        (.slice oneByte, leftover false devBootA) := by
  refine ⟨fun h => ?_, not_stepSafe [devBootA] rfl (by decide) (by decide),
    not_stepSafe [devBootA] rfl (by decide) ?_⟩
  · obtain ⟨b', ret, hc, -⟩ := h rfl
    cases hc
  · intro k hk
    exact ⟨devBootA, by decide, by cases k <;> revert hk <;> decide⟩

end

end Melis.Ota
