import Melis.RecRender.DataBufList

/-!
# What a step does to the manager

A step pushes a packet, hands one out, counts references, or frees packets: one
that the caller names, or the first ones. `Kept` asks for each of these that it
keeps an invariant; `Kept.next` is the rule for a step.
-/

namespace Melis.RecRender

open Lib

variable {β : Type}

namespace RsPacketCacheManager

variable {m m' : RsPacketCacheManager β} {p : PushedPacket β} {k : Nat} {buffer : Option Nat}
  {e : RecSinkPacket β} {es : List (RecSinkPacket β)} {I : RsPacketCacheManager β → Prop}

/-! ## Push -/

/-- The idle list has a node before a packet is taken from it, if `malloc` gave one. -/
def refilled (m : RsPacketCacheManager β) (k : Nat) : RsPacketCacheManager β :=
  if m.mIdlePacketList.isEmpty then m.increaseIdlePacketList k else m

theorem refilled_eq : ∃ idle n, m.refilled k = { m with mIdlePacketList := idle, nodes := n } := by
  unfold refilled
  split
  · exact ⟨_, _, rfl⟩
  · exact ⟨m.mIdlePacketList, m.nodes, rfl⟩

theorem refilled_of_ne_nil (h : m.mIdlePacketList ≠ []) : m.refilled k = m :=
  if_neg fun hempty => h (List.isEmpty_iff.mp hempty)

theorem nLeftBufSize_refilled : (m.refilled k).nLeftBufSize = m.nLeftBufSize := by
  obtain ⟨idle, n, heq⟩ := refilled_eq (m := m) (k := k)
  rw [heq]
  rfl

theorem pushPacket_fits (h : p.size ≤ m.nLeftBufSize) :
    m.pushPacket p k buffer = (m.refilled k).place p := by
  rw [← nLeftBufSize_refilled (k := k)] at h
  exact if_neg (Int.not_lt.mpr h)

theorem pushPacket_nomem (h : m.nLeftBufSize < p.size) :
    m.pushPacket p k none = (m.refilled k, .nomem) := by
  rw [← nLeftBufSize_refilled (k := k)] at h
  exact if_pos h

theorem pushPacket_grows {a : Nat} (h : m.nLeftBufSize < p.size) :
    m.pushPacket p k (some a) = ((m.refilled k).grown a (m.nEnlargeSize p)).place p := by
  have henlarge : (m.refilled k).nEnlargeSize p = m.nEnlargeSize p := by
    unfold nEnlargeSize
    rw [nLeftBufSize_refilled]
  rw [← nLeftBufSize_refilled (k := k)] at h
  rw [← henlarge]
  exact if_pos h

/-- A push places the packet where it fits, maybe after the list grew. -/
theorem pushPacket_inv (hnone : I (m.refilled k))
    (hplace : p.size ≤ (m.refilled k).nLeftBufSize → I ((m.refilled k).place p).1)
    (hgrow : ∀ a ∈ buffer, m.nLeftBufSize < p.size →
      p.size ≤ ((m.refilled k).grown a (m.nEnlargeSize p)).nLeftBufSize →
      I (((m.refilled k).grown a (m.nEnlargeSize p)).place p).1) :
    I (m.pushPacket p k buffer).1 := by
  have hleft := nLeftBufSize_refilled (m := m) (k := k)
  by_cases hlt : m.nLeftBufSize < p.size
  · cases hb : buffer with
    | none =>
      rw [pushPacket_nomem hlt]
      exact hnone
    | some a =>
      rw [pushPacket_grows hlt]
      refine hgrow a (by rw [hb]; rfl) hlt ?_
      have hle := nEnlargeSize_le hlt
      change p.size ≤ (m.refilled k).mBufSize + (m.nEnlargeSize p : Int) -
        (m.refilled k).mUsedBufSize
      rw [← hleft] at hle
      unfold nLeftBufSize at hle
      omega
  · rw [pushPacket_fits (Int.not_lt.mp hlt)]
    exact hplace (hleft ▸ Int.not_lt.mp hlt)

/-- The node that the next packet gets, as it is then. -/
def entry (m : RsPacketCacheManager β) (p : PushedPacket β) : RecSinkPacket β :=
  m.setRecSinkPacket (m.mIdlePacketList.headD .listHead) p

/-- The packet has its node, but no place yet. -/
def taken (m : RsPacketCacheManager β) (p : PushedPacket β) : RsPacketCacheManager β :=
  { m with
    mIdlePacketList := m.entry p :: m.mIdlePacketList.tail
    mPacketIdCounter := i32 (m.mPacketIdCounter + 1) }

/-- The bytes `xs` were written to `as`, and the write position is `pw`. -/
def written (m : RsPacketCacheManager β) (as : List Nat) (xs : List β) (pw : Nat) :
    RsPacketCacheManager β :=
  { m with
    mem := Memory.store m.mem as xs
    mpWritePos := pw
    mUsedBufSize := m.mUsedBufSize + xs.length }

/-- The memory after a copy that did not come to its end. -/
def spoilt (m : RsPacketCacheManager β) (as : List Nat) (xs : List β) :
    RsPacketCacheManager β :=
  { m with mem := Memory.store m.mem as xs }

/-- What a packet is once it is in the ring from `l` on. -/
structure Holds (m : RsPacketCacheManager β) (p : PushedPacket β) (l : List Nat)
    (e : RecSinkPacket β) : Prop where
  cells : e.cells = l.take p.bytes.length
  node : e.node = (m.mIdlePacketList.headD .listHead).node
  mId : e.mId = m.mPacketIdCounter
  seq : e.seq = m.pushed
  bytes : e.bytes = p.bytes

/-- A packet that fits is written to the ring from the write position on, unless
it is refused. -/
theorem Buffers.place_inv (h : m.Buffers) (hused : 0 ≤ m.mUsedBufSize)
    (hroom : 0 ≤ m.nLeftBufSize) (hfits : p.size ≤ m.nLeftBufSize)
    (hrefused : ∀ (l as : List Nat), l.IsRotated m.ring → l.head? = some m.mpWritePos →
      as <+: l → as.length ≤ p.bytes.length → (as.length : Int) ≤ m.nLeftBufSize →
      I ((m.taken p).spoilt as (p.bytes.take as.length)))
    (hplaced : ¬p.Illegal → ∀ (l : List Nat) (e : RecSinkPacket β) (pw : Nat),
      l.IsRotated m.ring → l.head? = some m.mpWritePos → m.Holds p l e →
      (l.drop p.bytes.length ++ l.take p.bytes.length).head? = some pw →
      (p.bytes.length : Int) ≤ m.nLeftBufSize →
      I (((m.taken p).written (l.take p.bytes.length) p.bytes pw).accept e)) :
    I (m.place p).1 := by
  obtain ⟨l₀, hl₀, hhead₀⟩ : ∃ l : List Nat, l.IsRotated m.ring ∧ l.head? = some m.mpWritePos := by
    obtain ⟨A, B, hAB⟩ := List.append_of_mem h.write
    exact ⟨m.mpWritePos :: B ++ A, hAB ▸ List.isRotated_append, rfl⟩
  by_cases hlegal : p.Illegal
  · unfold place
    dsimp only
    rw [if_pos hlegal]
    exact hrefused l₀ [] hl₀ hhead₀ List.nil_prefix (Nat.zero_le _) hroom
  have hlen := PushedPacket.length_bytes hlegal
  by_cases hempty : p.size ≤ 0
  · have hnil : p.bytes = [] := List.eq_nil_of_length_eq_zero (by omega)
    have hzero : p.bytes.length = 0 := by rw [hnil]; rfl
    unfold place
    dsimp only
    rw [if_neg hlegal, if_pos hempty]
    have hkeep := hplaced hlegal l₀ { m.entry p with mpData0 := m.mpWritePos } m.mpWritePos hl₀
      hhead₀ ⟨by rw [hzero]; rfl, rfl, rfl, rfl, rfl⟩ (by rw [hzero]; simpa using hhead₀)
      (by omega)
    have hwritten : (m.taken p).written (l₀.take p.bytes.length) p.bytes m.mpWritePos =
        m.taken p := by
      rw [hzero, hnil]
      simp [written, taken]
    rwa [hwritten] at hkeep
  have hne : p.bytes ≠ [] := by
    intro hnil
    rw [hnil, List.length_nil] at hlen
    omega
  have htotal := h.total
  obtain ⟨l, hl, hhead, hcopied⟩ := h.copy hne (by unfold nLeftBufSize at hfits; omega)
  obtain ⟨as, hpre, has, hmem⟩ := hcopied.mem
  have hkeep := hrefused l as hl hhead hpre has (by omega)
  rw [show (m.taken p).spoilt as (p.bytes.take as.length) =
    { m.taken p with mem := (m.startCopy.loops p m.mDataBufList).1.mem } by rw [hmem]; rfl]
    at hkeep
  unfold place
  dsimp only
  rw [if_neg hlegal, if_neg hempty]
  generalize hr : Copy.loops p (startCopy _) m.mDataBufList = r
  obtain rfl : m.startCopy.loops p m.mDataBufList = r := hr
  cases hflow : (m.startCopy.loops p m.mDataBufList).2 with
  | done =>
    obtain ⟨hmem', hcells, hpw⟩ := hcopied.done hflow
    have hkeep' := hplaced hlegal l
      { m.entry p with
        mpData0 := (m.startCopy.loops p m.mDataBufList).1.pArrayDBPacketPtr 0
        mSize0 := (m.startCopy.loops p m.mDataBufList).1.nArrayDBPacketSize 0
        mpData1 := (m.startCopy.loops p m.mDataBufList).1.pArrayDBPacketPtr 1
        mSize1 := (m.startCopy.loops p m.mDataBufList).1.nArrayDBPacketSize 1 }
      (m.startCopy.loops p m.mDataBufList).1.pWritePos hl hhead ⟨hcells, rfl, rfl, rfl, rfl⟩ hpw
      (by omega)
    have hwritten : (m.taken p).written (l.take p.bytes.length) p.bytes
        (m.startCopy.loops p m.mDataBufList).1.pWritePos =
        { m.taken p with
          mem := (m.startCopy.loops p m.mDataBufList).1.mem
          mpWritePos := (m.startCopy.loops p m.mDataBufList).1.pWritePos
          mUsedBufSize := m.mUsedBufSize + p.size } := by
      rw [hmem', ← hlen]
      rfl
    rw [hwritten] at hkeep'
    exact hkeep'
  | notSupport => exact hkeep
  | unexist => exact hkeep
  | next => exact hkeep

/-! ## Release -/

/-- The data of `e` is given back. -/
def freed (m : RsPacketCacheManager β) (e : RecSinkPacket β) (pos : Nat) :
    RsPacketCacheManager β :=
  { m with
    mpReadPos := pos
    mUsedBufSize := m.mUsedBufSize - (e.mSize0 + e.mSize1)
    mPacketCount := m.mPacketCount - 1
    mIdlePacketList := m.mIdlePacketList ++ [e] }

/-- `e` is freed; `es` is left of the using list. -/
def freedUsing (m : RsPacketCacheManager β) (e : RecSinkPacket β) (pos : Nat)
    (es : List (RecSinkPacket β)) : RsPacketCacheManager β :=
  { m.freed e pos with mUsingPacketList := es }

/-- `e` is freed; `es` is left of the ready list. -/
def freedReady (m : RsPacketCacheManager β) (e : RecSinkPacket β) (pos : Nat)
    (es : List (RecSinkPacket β)) : RsPacketCacheManager β :=
  { m.freed e pos with mReadyPacketList := es, left := m.left ++ [e.seq] }

theorem releaseData_eq (h : m.releaseData e = some m') : ∃ pos, m' = m.freed e pos := by
  obtain ⟨b, -, rfl⟩ := Option.map_eq_some_iff.mp h
  exact ⟨_, rfl⟩

/-- Whether a thread waits for a packet, and for which. -/
def waiting (m : RsPacketCacheManager β) (flag : Bool) (nId : Int) : RsPacketCacheManager β :=
  { m with mWaitReleaseUsingPacketFlag := flag, mWaitReleaseUsingPacketId := nId }

theorem signalRelease_eq (nId n : Int) : ∃ flag id, m.signalRelease nId n = m.waiting flag id := by
  unfold signalRelease
  split
  · exact ⟨_, _, rfl⟩
  · exact ⟨m.mWaitReleaseUsingPacketFlag, m.mWaitReleaseUsingPacketId, rfl⟩

theorem releasePacket_inv {nId : Int} (h : I m)
    (hwaiting : ∀ m flag id, I m → I (waiting m flag id)) (hcnt : ∀ e n, I (m.setRefCnt e n))
    (hfree : ∀ A e B pos, m.mUsingPacketList = A ++ e :: B → e.mId = nId → e.mRefCnt = 1 →
      (∀ x ∈ A, x.mId ≠ nId) →
      I (m.freedUsing { e with mRefCnt := 0 } pos
        (m.mUsingPacketList.eraseP (·.node == e.node)))) :
    I (m.releasePacket nId).1 := by
  have hsignal : ∀ (m : RsPacketCacheManager β) n, I m → I (m.signalRelease nId n) := by
    intro m n hm
    obtain ⟨flag, id, heq⟩ := signalRelease_eq (m := m) nId n
    rw [heq]
    exact hwaiting m flag id hm
  unfold releasePacket
  cases hfind : m.mUsingPacketList.find? (·.mId == nId) with
  | none => exact h
  | some e =>
    obtain ⟨hid, A, B, hsplit, hA⟩ := List.find?_eq_some_iff_append.mp hfind
    dsimp only
    split
    · next hone =>
      cases hdata : m.releaseData { e with mRefCnt := 0 } with
      | none => exact hsignal _ _ (hcnt e 0)
      | some m' =>
        obtain ⟨pos, rfl⟩ := releaseData_eq hdata
        exact hsignal _ _ (hfree A e B pos hsplit (by simpa using hid) hone (by simpa using hA))
    · split
      · exact hsignal _ _ (hcnt e _)
      · exact hsignal _ _ h

theorem releaseReadyPacket_inv (h : I m) (hready : m.mReadyPacketList = e :: es)
    (hfree : ∀ pos, I (m.freedReady e pos es)) :
    I (m.releaseReadyPacket e.mId).1 := by
  have hfind : m.mReadyPacketList.find? (·.mId == e.mId) = some e := by
    rw [hready]
    simp
  have herase : m.mReadyPacketList.eraseP (·.node == e.node) = es := by
    rw [hready]
    simp
  unfold releaseReadyPacket
  rw [hfind]
  dsimp only
  cases hdata : m.releaseData e with
  | none => exact h
  | some m' =>
    obtain ⟨pos, rfl⟩ := releaseData_eq hdata
    rw [herase]
    exact hfree pos

end RsPacketCacheManager

/-! ## The steps -/

/-- The packet that a step releases by an id that it was given. -/
def State.named (s : State β) : Input β → Option Int
  | .release nId => some nId
  | .wake false =>
    match s.pc with
    | .wait node _ => if s.m.mWaitReleaseUsingPacketFlag then none else some (s.idOf node)
    | _ => none
  | _ => none

/-- What is to be shown of an invariant of the manager: every call keeps it, where
its step meets `C`. -/
structure Kept (C : State β → Input β → Prop) (I : RsPacketCacheManager β → Prop) : Prop where
  push : ∀ s p k buffer, C s (.push p k buffer) →
    (∀ a ∈ buffer, s.m.Fresh a (s.m.nEnlargeSize p)) → I s.m → I (s.m.pushPacket p k buffer).1
  get : ∀ m, I m → I (RsPacketCacheManager.getPacket m).1
  waiting : ∀ m flag nId, I m → I (RsPacketCacheManager.waiting m flag nId)
  setRefCnt : ∀ m e n, I m → I (RsPacketCacheManager.setRefCnt m e n)
  named : ∀ s i nId e A B pos, C s i → s.named i = some nId →
    s.m.mUsingPacketList = A ++ e :: B → e.mId = nId → e.mRefCnt = 1 → (∀ x ∈ A, x.mId ≠ nId) →
    I s.m → I (s.m.freedUsing { e with mRefCnt := 0 } pos
      (s.m.mUsingPacketList.eraseP (·.node == e.node)))
  first : ∀ m e es pos, m.mUsingPacketList = e :: es → I m →
    I (m.freedUsing { e with mRefCnt := 0 } pos es)
  firstReady : ∀ m e es pos, m.mUsingPacketList = [] → m.mReadyPacketList = e :: es → I m →
    I (m.freedReady e pos es)

namespace Kept

open RsPacketCacheManager

variable {C : State β → Input β → Prop} {I : RsPacketCacheManager β → Prop}
  {m m' : RsPacketCacheManager β} {e : RecSinkPacket β} {es : List (RecSinkPacket β)}

theorem releaseFirst (hk : Kept C I) (h : I m) (husing : m.mUsingPacketList = e :: es) :
    I (m.releasePacket e.mId).1 := by
  refine releasePacket_inv h hk.waiting (fun x n => hk.setRefCnt m x n h) ?_
  intro A x B pos hsplit hid hone hA
  cases A with
  | nil =>
    obtain ⟨rfl, rfl⟩ := List.cons.inj (husing.symm.trans hsplit)
    have herase : m.mUsingPacketList.eraseP (·.node == e.node) = es := by
      rw [husing]
      simp
    rw [herase]
    exact hk.first m e es pos husing h
  | cons y A =>
    obtain ⟨rfl, -⟩ := List.cons.inj (husing.symm.trans hsplit)
    exact absurd rfl (hA e (List.mem_cons_self ..))

/-- A release of the first packet that succeeds takes it from the list. -/
theorem releaseFirst_using (husing : m.mUsingPacketList = e :: es) (hone : e.mRefCnt = 1)
    (hr : m.releasePacket e.mId = (m', .success)) : m'.mUsingPacketList = es := by
  have hfind : m.mUsingPacketList.find? (·.mId == e.mId) = some e := by
    rw [husing]
    simp
  have herase : m.mUsingPacketList.eraseP (·.node == e.node) = es := by
    rw [husing]
    simp
  unfold releasePacket at hr
  rw [hfind] at hr
  dsimp only at hr
  rw [if_pos hone] at hr
  cases hdata : m.releaseData { e with mRefCnt := 0 } with
  | none =>
    rw [hdata] at hr
    exact nomatch congrArg Prod.snd hr
  | some m₀ =>
    rw [hdata] at hr
    obtain ⟨flag, id, heq⟩ := signalRelease_eq (m := { m₀ with
      mUsingPacketList := m.mUsingPacketList.eraseP (·.node == e.node) }) e.mId 0
    have hm' := congrArg Prod.fst hr
    dsimp only at hm'
    rw [← hm', heq]
    exact herase

theorem releaseUsingFrames (hk : Kept C I) (h : I m) (husing : m.mUsingPacketList = es) :
    I (RsPacketCacheManager.releaseUsingFrames es m).1 ∧
      ((RsPacketCacheManager.releaseUsingFrames es m).2.2 = false →
        (RsPacketCacheManager.releaseUsingFrames es m).1.mUsingPacketList = []) := by
  induction es generalizing m with
  | nil => exact ⟨h, fun _ => husing⟩
  | cons e es ih =>
    unfold RsPacketCacheManager.releaseUsingFrames
    split
    · exact ⟨h, nofun⟩
    · split
      · exact ⟨h, nofun⟩
      · split
        · exact ⟨h, nofun⟩
        · have hkeep := hk.releaseFirst h husing
          cases hr : m.releasePacket e.mId with
          | mk m' err =>
            rw [hr] at hkeep
            cases err with
            | success => exact ih hkeep (releaseFirst_using husing (by omega) hr)
            | _ => exact ⟨hkeep, nofun⟩

/-- A release of the first ready packet that succeeds takes it from the list. -/
theorem releaseReadyFirst_lists (hready : m.mReadyPacketList = e :: es)
    (hr : m.releaseReadyPacket e.mId = (m', .success)) :
    m'.mReadyPacketList = es ∧ m'.mUsingPacketList = m.mUsingPacketList := by
  have hfind : m.mReadyPacketList.find? (·.mId == e.mId) = some e := by
    rw [hready]
    simp
  have herase : m.mReadyPacketList.eraseP (·.node == e.node) = es := by
    rw [hready]
    simp
  unfold releaseReadyPacket at hr
  rw [hfind] at hr
  dsimp only at hr
  cases hdata : m.releaseData e with
  | none =>
    rw [hdata] at hr
    exact nomatch congrArg Prod.snd hr
  | some m₀ =>
    rw [hdata] at hr
    obtain ⟨pos, rfl⟩ := releaseData_eq hdata
    have hm' := congrArg Prod.fst hr
    dsimp only at hm'
    rw [← hm']
    exact ⟨herase, rfl⟩

theorem releaseReadyFrames (hk : Kept C I) (h : I m) (husing : m.mUsingPacketList = [])
    (hready : m.mReadyPacketList = es) : I (RsPacketCacheManager.releaseReadyFrames es m).1 := by
  induction es generalizing m with
  | nil => exact h
  | cons e es ih =>
    unfold RsPacketCacheManager.releaseReadyFrames
    split
    · exact h
    · have hkeep := releaseReadyPacket_inv h hready fun pos =>
        hk.firstReady m e es pos husing hready h
      cases hr : m.releaseReadyPacket e.mId with
      | mk m' err =>
        rw [hr] at hkeep
        cases err with
        | success =>
          obtain ⟨hready', husing'⟩ := releaseReadyFirst_lists hready hr
          exact ih hkeep (husing'.trans husing) hready'
        | _ => exact hkeep

theorem releaseFrames (hk : Kept C I) (h : I m) : I m.releaseFrames.1 := by
  obtain ⟨husing, hnil⟩ := hk.releaseUsingFrames h rfl
  unfold RsPacketCacheManager.releaseFrames
  split
  · split
    · next m' err heq =>
      rw [heq] at husing hnil
      exact hk.releaseReadyFrames husing (hnil rfl) rfl
    · next m' err heq =>
      rw [heq] at husing
      exact husing
  · exact h

theorem releaseEarlistPacket {s : State β} (hk : Kept C I) (h : I s.m) (bForce control : Bool) :
    I (s.releaseEarlistPacket bForce control).m := by
  unfold State.releaseEarlistPacket
  split
  · split
    · next e es husing =>
      split
      · exact hk.releaseFirst h husing
      · split
        · exact hk.waiting s.m true e.mId h
        · exact h
    · next e es husing hready =>
      exact releaseReadyPacket_inv h hready fun pos => hk.firstReady s.m e es pos husing hready h
    · exact h
  · exact h

theorem release {s : State β} {i : Input β} {nId : Int} (hk : Kept C I) (h : I s.m) (hC : C s i)
    (hnamed : s.named i = some nId) : I (s.m.releasePacket nId).1 :=
  releasePacket_inv h hk.waiting (fun e n => hk.setRefCnt s.m e n h)
    fun A e B pos hsplit hid hone hA => hk.named s i nId e A B pos hC hnamed hsplit hid hone hA h

theorem step {s s' : State β} (hk : Kept C I) (h : I s.m) (hs : s.step = some s') : I s'.m := by
  unfold State.step at hs
  cases hpc : s.pc with
  | duration =>
    rw [hpc] at hs
    obtain rfl := Option.some.inj hs
    exact h
  | query =>
    rw [hpc] at hs
    obtain rfl := Option.some.inj hs
    exact h
  | release bForce control =>
    rw [hpc] at hs
    obtain rfl := Option.some.inj hs
    exact hk.releaseEarlistPacket h bForce control
  | frames =>
    rw [hpc] at hs
    obtain rfl := Option.some.inj hs
    exact hk.releaseFrames h
  | idle | wait =>
    rw [hpc] at hs
    exact nomatch hs

theorem wake {s s' : State β} {timeout : Bool} (hk : Kept C I) (h : I s.m)
    (hC : C s (.wake timeout)) (hs : s.wake timeout = some s') : I s'.m := by
  unfold State.wake at hs
  cases hpc : s.pc with
  | wait node control =>
    rw [hpc] at hs
    dsimp only at hs
    cases timeout with
    | true =>
      obtain rfl := Option.some.inj hs
      exact hk.waiting s.m false s.m.mWaitReleaseUsingPacketId h
    | false =>
      rw [if_neg Bool.false_ne_true] at hs
      split at hs
      · obtain rfl := Option.some.inj hs
        exact h
      · next hflag =>
        obtain rfl := Option.some.inj hs
        refine hk.release h hC ?_
        simp only [State.named, hpc, if_neg hflag]
  | idle | duration | query | release | frames =>
    rw [hpc] at hs
    exact nomatch hs

/-- **Rule for a step.** -/
theorem next {s s' : State β} {i : Input β} (hk : Kept C I) (h : I s.m) (hC : C s i)
    (hs : (packetCache β).next s i = some s') : I s'.m := by
  change RecRender.next s i = some s' at hs
  unfold RecRender.next at hs
  split at hs
  · cases i with
    | push p k buffer =>
      dsimp only at hs
      split at hs
      · next hfresh =>
        obtain rfl := Option.some.inj hs
        exact hk.push s p k buffer hC hfresh h
      · exact nomatch hs
    | get =>
      obtain rfl := Option.some.inj hs
      exact hk.get s.m h
    | ref nId =>
      obtain rfl := Option.some.inj hs
      change I (s.m.refPacket nId).1
      unfold refPacket
      split
      · exact h
      · exact hk.setRefCnt s.m _ _ h
    | release nId =>
      obtain rfl := Option.some.inj hs
      exact hk.release h hC rfl
    | releaseEarlist bForce =>
      dsimp only at hs
      split at hs
      · obtain rfl := Option.some.inj hs
        exact h
      · exact nomatch hs
    | control =>
      dsimp only at hs
      split at hs
      · obtain rfl := Option.some.inj hs
        exact h
      · exact nomatch hs
    | step => exact hk.step h hs
    | wake timeout => exact hk.wake h hC hs
  · exact nomatch hs

end Kept

end Melis.RecRender
