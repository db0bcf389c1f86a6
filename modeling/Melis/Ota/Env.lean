import Melis.Lib.C

/-!
# The boot environment

`env.c` keeps the environment as `name=value` strings closed by an empty one.
`fwGetenv` finds the first definition of a name; `fwEnvWrite` takes the first
definition out and appends the new one. Both compare with `envmatch`, which
runs on behind the two strings where a string is the bare name, and both run
to the closing empty string: a result `none` is a read outside the environment.
-/

namespace Melis.Ota

open Lib

/-- What `fw_env_open` loads: the strings of `environment.data`, and whether an
empty string closes them inside it. -/
structure Env where
  vars : List CStr
  terminated : Bool
  deriving DecidableEq

/-- `envmatch`: the value in the pair `s2` if its name is `s1`. -/
def envmatch : CStr → CStr → Option (Option CStr)
  -- both at their NUL: the comparison goes on behind them
  | [], [] => none
  | [], d :: s2 => some (if d = '=' then some s2 else none)
  | _ :: _, [] => some none
  | c :: s1, d :: s2 =>
    if c = d then
      if c = '=' then some (some s2) else envmatch s1 s2
    else some none

/-- The search loop of `fw_getenv` and `fw_env_write`. -/
def search (terminated : Bool) (name : CStr) : List CStr → Option (Option CStr)
  | [] => if terminated then some none else none
  | env :: vars => do
    match ← envmatch name env with
    | some val => some (some val)
    | none => search terminated name vars

/-- `fw_getenv`. -/
def fwGetenv (env : Env) (name : CStr) : Option (Option CStr) :=
  search env.terminated name env.vars

def defines (name env : CStr) : Bool :=
  (envmatch name env).join.isSome

/-- The environment without the first definition of `name`. -/
def Env.delete (env : Env) (name : CStr) : Env :=
  { env with vars := env.vars.eraseP (defines name) }

/-- The bytes of the strings with their NULs. -/
def varsLen (vars : List CStr) : Nat := (vars.map fun s => s.length + 1).sum

/-- Taking the first definition of `name` out and appending the new one. -/
def Env.replace (envSize : Nat) (env : Env) (name value : CStr) : Env × Int :=
  let env := env.delete name
  if value = [] then (env, 0)
  else if envSize < varsLen env.vars + (name.length + 2 + (value.length + 1)) then (env, -1)
  else ({ env with vars := env.vars ++ [name ++ '=' :: value] }, 0)

/-- `fw_env_write`; an empty `value` is also a `NULL` one. -/
def fwEnvWrite (envSize : Nat) (env : Env) (name value : CStr) : Option (Env × Int) :=
  match fwGetenv env name with
  | none => none
  | some oldval =>
    if oldval = none ∧ value = [] then some (env, 0)
    -- closing the gap and looking for the end run to the closing empty string
    else if env.terminated then some (env.replace envSize name value)
    else none

/-! ## `envmatch` -/

section

variable {name other value s : CStr}

theorem envmatch_eq_some (h : '=' ∉ name) {v : CStr} :
    envmatch name s = some (some v) ↔ s = name ++ '=' :: v := by
  induction name generalizing s with
  | nil =>
    cases s with
    | nil => simp [envmatch]
    | cons d s =>
      simp only [envmatch]
      split <;> simp_all
  | cons c name ih =>
    rw [List.mem_cons, not_or] at h
    cases s with
    | nil => simp [envmatch]
    | cons d s =>
      simp only [envmatch, if_neg (Ne.symm h.1)]
      by_cases hcd : c = d
      · simp [hcd, ih h.2]
      · simp [hcd, Ne.symm hcd]

/-- Only the bare name sends the comparison behind the strings. -/
theorem envmatch_eq_none (h : '=' ∉ name) : envmatch name s = none ↔ s = name := by
  induction name generalizing s with
  | nil => cases s <;> simp [envmatch]
  | cons c name ih =>
    rw [List.mem_cons, not_or] at h
    cases s with
    | nil => simp [envmatch]
    | cons d s =>
      simp only [envmatch, if_neg (Ne.symm h.1)]
      by_cases hcd : c = d
      · simp [hcd, ih h.2]
      · simp [hcd, Ne.symm hcd]

theorem defines_iff (h : '=' ∉ name) : defines name s ↔ ∃ v, s = name ++ '=' :: v := by
  unfold defines
  rw [Option.isSome_iff_exists]
  simp only [Option.join_eq_some_iff, envmatch_eq_some h]

/-- The name of a definition ends at its first `=`. -/
theorem takeWhile_define (h : '=' ∉ name) (v : CStr) :
    (name ++ '=' :: v).takeWhile (· ≠ '=') = name := by
  rw [List.takeWhile_append_of_pos (by simpa using fun a ha => ne_of_mem_of_not_mem ha h)]
  simp

/-- A definition of one name is passed over by the search for another. -/
theorem envmatch_of_defines (hn : '=' ∉ name) (ho : '=' ∉ other) (hne : name ≠ other)
    (h : defines name s) : envmatch other s = some none := by
  obtain ⟨v, rfl⟩ := (defines_iff hn).1 h
  rcases hm : envmatch other (name ++ '=' :: v) with - | - | w
  · have he := (envmatch_eq_none ho).1 hm
    exact absurd (he ▸ (by simp : '=' ∈ name ++ '=' :: v)) ho
  · rfl
  · have he := (envmatch_eq_some ho).1 hm
    have hname := takeWhile_define hn v
    rw [he, takeWhile_define ho] at hname
    exact absurd hname.symm hne

/-! ## Looking up what was written -/

variable {t : Bool} {vars : List CStr}

theorem search_erase_ne (hn : '=' ∉ name) (ho : '=' ∉ other) (hne : name ≠ other) :
    search t other (vars.eraseP (defines name)) = search t other vars := by
  induction vars with
  | nil => rfl
  | cons s vars ih =>
    by_cases hs : defines name s
    · rw [List.eraseP_cons_of_pos hs, search, envmatch_of_defines hn ho hne hs]
      rfl
    · rw [List.eraseP_cons_of_neg hs, search, search, ih]

theorem search_append_ne (hn : '=' ∉ name) (ho : '=' ∉ other) (hne : name ≠ other) :
    search t other (vars ++ [name ++ '=' :: value]) = search t other vars := by
  induction vars with
  | nil =>
    have hd : defines name (name ++ '=' :: value) := (defines_iff hn).2 ⟨value, rfl⟩
    simp only [List.nil_append, search, envmatch_of_defines hn ho hne hd]
    rfl
  | cons s vars ih => rw [List.cons_append, search, search, ih]

theorem search_append_self (hn : '=' ∉ name) (h : search t name vars = some none) :
    search t name (vars ++ [name ++ '=' :: value]) = some (some value) := by
  induction vars with
  | nil =>
    rw [List.nil_append, search, (envmatch_eq_some hn).2 rfl]
    rfl
  | cons s vars ih =>
    rw [search] at h
    rw [List.cons_append, search]
    rcases hm : envmatch name s with - | - | v <;> rw [hm] at h
    · cases h
    · exact ih h
    · cases h

variable {envSize : Nat} {env env' : Env} {ret : Int}

theorem replace_getenv_ne (hn : '=' ∉ name) (ho : '=' ∉ other) (hne : name ≠ other) :
    (env.replace envSize name value).1.terminated = env.terminated ∧
      fwGetenv (env.replace envSize name value).1 other = fwGetenv env other := by
  have hdel : fwGetenv (env.delete name) other = fwGetenv env other := search_erase_ne hn ho hne
  unfold Env.replace
  dsimp only
  split
  · exact ⟨rfl, hdel⟩
  split
  · exact ⟨rfl, hdel⟩
  · exact ⟨rfl, (search_append_ne hn ho hne).trans hdel⟩

theorem fwEnvWrite_eq_some (h : fwEnvWrite envSize env name value = some (env', ret)) :
    (env' = env ∧ value = []) ∨
      env.terminated = true ∧ env.replace envSize name value = (env', ret) := by
  unfold fwEnvWrite at h
  split at h
  · cases h
  split at h
  next hnil =>
    cases h
    exact .inl ⟨rfl, hnil.2⟩
  split at h
  next ht => exact .inr ⟨ht, Option.some.inj h⟩
  · cases h

/-- `fw_env_write` of one name leaves the value of every other name. -/
theorem fwEnvWrite_getenv_ne (hn : '=' ∉ name) (ho : '=' ∉ other) (hne : name ≠ other)
    (h : fwEnvWrite envSize env name value = some (env', ret)) :
    env'.terminated = env.terminated ∧ fwGetenv env' other = fwGetenv env other := by
  rcases fwEnvWrite_eq_some h with ⟨rfl, -⟩ | ⟨-, hr⟩
  · exact ⟨rfl, rfl⟩
  · have hrep : (env.replace envSize name value).1.terminated = env.terminated ∧
        fwGetenv (env.replace envSize name value).1 other = fwGetenv env other :=
      replace_getenv_ne hn ho hne
    rwa [hr] at hrep

/-- A written value is found, unless an older definition was behind the one taken out. -/
theorem fwEnvWrite_getenv_self (hn : '=' ∉ name) (hv : value ≠ [])
    (hone : fwGetenv (env.delete name) name = some none)
    (h : fwEnvWrite envSize env name value = some (env', 0)) :
    fwGetenv env' name = some (some value) := by
  rcases fwEnvWrite_eq_some h with ⟨-, hnil⟩ | ⟨-, hr⟩
  · exact absurd hnil hv
  · unfold Env.replace at hr
    dsimp only at hr
    rw [if_neg hv] at hr
    split at hr
    · cases hr
    · cases hr
      exact search_append_self hn hone

/-- In a closed environment `fw_env_write` returns if the name's search does. -/
theorem fwEnvWrite_returns (ht : env.terminated = true) (h : fwGetenv env name ≠ none) :
    ∃ env' ret, fwEnvWrite envSize env name value = some (env', ret) := by
  obtain ⟨oldval, ho⟩ := Option.ne_none_iff_exists'.1 h
  simp only [fwEnvWrite, ho, ht, if_true]
  split
  · exact ⟨_, _, rfl⟩
  · exact ⟨_, _, rfl⟩

end

end Melis.Ota
