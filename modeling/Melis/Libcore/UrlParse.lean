import Melis.Libcore.UrlEscape

/-!
# What `CdxUrlNew` finds

`render` writes the parts of a URL. The parser searches the whole rest of the string each time, so
it has to be said of each search that a delimiter of another part is not taken: the first `/` and
the first `:` behind the host are those of the path and the port (`strchr_slash`,
`filter_colon`), and the last `@` is the one behind the credentials as long as the path has none.
-/

namespace Melis.Libcore

open Lib

variable {s a b n p1 : CStr} {l : Option (CStr × Option CStr)} {port path : Option CStr}
  {room : Nat} {url : CStr}

/-! ## URLs and their parts -/

/-- A name or an IPv4 address, or an address in brackets. -/
inductive UrlHost where
  | name (n : CStr)
  | ip6 (a : CStr)
  deriving DecidableEq

structure UrlParts where
  scheme : CStr
  login : Option (CStr × Option CStr)
  host : UrlHost
  port : Option CStr
  path : Option CStr
  deriving DecidableEq

def loginText : Option (CStr × Option CStr) → CStr
  | none => []
  | some (user, none) => user ++ ['@']
  | some (user, some password) => user ++ (':' :: password ++ ['@'])

def UrlHost.text : UrlHost → CStr
  | .name n => n
  | .ip6 a => '[' :: a ++ [']']

/-- The host without the brackets. -/
def UrlHost.bare : UrlHost → CStr
  | .name n => n
  | .ip6 a => a

def portText : Option CStr → CStr
  | none => []
  | some digits => ':' :: digits

def pathText : Option CStr → CStr
  | none => []
  | some path => '/' :: path

/-- `scheme://[user[:password]@]host[:port][/path]` -/
def render (p : UrlParts) : CStr :=
  p.scheme ++ ("://".toList ++
    (loginText p.login ++ (p.host.text ++ (portText p.port ++ pathText p.path))))

/-- No part has a delimiter that would end it. -/
structure WellFormed (p : UrlParts) : Prop where
  scheme : ¬ "://".toList <:+: p.scheme
  user : ∀ l ∈ p.login, ':' ∉ l.1 ∧ '@' ∉ l.1 ∧ '/' ∉ l.1
  password : ∀ l ∈ p.login, ∀ w ∈ l.2, '@' ∉ w ∧ '/' ∉ w
  host : '@' ∉ p.host.bare ∧ '/' ∉ p.host.bare ∧ ']' ∉ p.host.bare
  name : ∀ n, p.host = .name n → ':' ∉ n ∧ '[' ∉ n
  digits : ∀ d ∈ p.port, ∀ c ∈ d, c.isDigit
  port : ∀ d ∈ p.port, atoiDigits d < 2 ^ 31

/-- The parts as they are escaped; digits stay. -/
def UrlParts.escaped (p : UrlParts) : UrlParts where
  scheme := esc p.scheme
  login := p.login.map fun l => (esc l.1, l.2.map esc)
  host := match p.host with
    | .name n => .name (esc n)
    | .ip6 a => .ip6 (esc a)
  port := p.port
  path := p.path.map esc

/-- What a URL of these parts is to give. -/
def fields (p : UrlParts) : CdxUrl where
  url := render p
  protocol := p.scheme
  hostname := p.host.bare
  file := '/' :: p.path.getD []
  port := (p.port.map atoiDigits).getD 0
  username := p.login.map Prod.fst
  password := p.login.bind Prod.snd

/-! ## The searches -/

theorem not_mem_digits {c : Char} (hd : ∀ d ∈ port, ∀ c ∈ d, c.isDigit) (hc : c.isDigit = false)
    (hcolon : c ≠ ':') : c ∉ portText port := by
  cases port with
  | none => exact List.not_mem_nil
  | some d =>
    rw [portText, List.mem_cons, not_or]
    refine ⟨hcolon, fun hmem => ?_⟩
    rw [hd d rfl c hmem] at hc
    cases hc

/-- The first `/` is the one of the path. -/
theorem strchr_slash (h : '/' ∉ a) : strchr (a ++ pathText path) '/' = path.map ('/' :: ·) := by
  cases path with
  | none =>
    rw [pathText, List.append_nil]
    exact strchr_eq_none.2 h
  | some q => exact strchr_append h

/-- What is not in `a` is found behind it. -/
theorem length_behind {c : Char} {x y : CStr} (ha : c ∉ a) (heq : a ++ b = x ++ c :: y) :
    (c :: y).length ≤ b.length := by
  rcases List.append_eq_append_iff.1 heq with ⟨z, rfl, hz⟩ | ⟨z, rfl, hz⟩
  · rw [hz, List.length_append]
    exact Nat.le_add_left _ _
  · cases z with
    | nil =>
      rw [List.nil_append] at hz
      rw [hz]
    | cons e z =>
      obtain ⟨rfl, -⟩ := List.cons.inj hz
      simp at ha

theorem behind_slash {c : Char} {x y : CStr} (ha : c ∉ a) (hc : c ≠ '/')
    (heq : a ++ pathText path = x ++ c :: y) :
    ∃ q, path = some q ∧ (c :: y).length < ('/' :: q).length := by
  cases path with
  | none =>
    have hlen := length_behind ha heq
    exact absurd hlen (Nat.not_succ_le_zero _)
  | some q =>
    have hslash : c ∉ a ++ ['/'] := by simp [ha, hc]
    have heq' : a ++ ['/'] ++ q = x ++ c :: y := by simpa [pathText] using heq
    exact ⟨q, rfl, Nat.lt_succ_of_le (length_behind hslash heq')⟩

/-- A `:` that does not stand behind the first `/` is the one of the port. -/
theorem filter_colon (ha : ':' ∉ a) (hd : ∀ d ∈ port, ∀ c ∈ d, c.isDigit) :
    ((strchr (a ++ (portText port ++ pathText path)) ':').filter fun p2 =>
      !isBefore (path.map ('/' :: ·)) p2) = port.map fun d => ':' :: (d ++ pathText path) := by
  cases port with
  | some d =>
    have hstr : strchr (a ++ (portText (some d) ++ pathText path)) ':' =
        some (':' :: (d ++ pathText path)) := strchr_append ha
    rw [hstr, Option.map_some]
    refine Option.filter_eq_some_iff.2 ⟨rfl, ?_⟩
    cases path with
    | none => rfl
    | some q =>
      have hnot : isBefore (some ('/' :: q)) (':' :: (d ++ '/' :: q)) = false := by
        refine decide_eq_false ?_
        simp only [List.length_cons, List.length_append]
        omega
      simp [pathText, hnot]
  | none =>
    rw [portText, List.nil_append, Option.map_none]
    refine Option.filter_eq_none_iff.2 fun p2 hp2 => ?_
    obtain ⟨x, y, hxy, rfl, hx⟩ := strchr_eq_some.1 hp2
    obtain ⟨q, rfl, hlen⟩ := behind_slash ha (by decide) hxy
    have hbefore : isBefore (some ('/' :: q)) (':' :: y) = true := decide_eq_true hlen
    simp [hbefore]

theorem atoi_digits (hd : ∀ c ∈ s, c.isDigit) : atoi (s ++ pathText path) = atoiDigits s := by
  have hpath : ∀ c ∈ (pathText path).head?, c = '/' := by
    cases path with
    | none => exact fun _ h => nomatch h
    | some q => exact fun c h => (Option.some.inj h).symm
  have hhead : ∀ c ∈ (s ++ pathText path).head?, isspace c = false ∧ c ≠ '-' ∧ c ≠ '+' := by
    intro c hc
    cases s with
    | nil =>
      obtain rfl := hpath c hc
      decide
    | cons d s =>
      obtain rfl := Option.some.inj hc
      exact plain_of_isDigit (hd _ List.mem_cons_self)
  rw [atoi_eq hhead, atoiDigits_append hd]
  intro c hc
  obtain rfl := hpath c hc
  rfl

/-! ## The parts of the parser -/

theorem slash_not_mem_login (h : ∀ x ∈ l, ':' ∉ x.1 ∧ '@' ∉ x.1 ∧ '/' ∉ x.1)
    (hw : ∀ x ∈ l, ∀ w ∈ x.2, '@' ∉ w ∧ '/' ∉ w) : '/' ∉ loginText l := by
  match l with
  | none => exact List.not_mem_nil
  | some (u, none) =>
    have hu := h _ rfl
    simp [loginText, hu.2.2]
  | some (u, some w) =>
    have hu := h _ rfl
    have hww := hw _ rfl w rfl
    simp [loginText, hu.2.2, hww.2]

/-- An `@` in the path hides one before it. -/
theorem credentials_none (hs : '/' ∉ a) (h : '@' ∈ a → ∃ q ∈ path, '@' ∈ q) :
    credentials (a ++ pathText path) = some { p1 := a ++ pathText path } := by
  unfold credentials
  cases hr : strrchr (a ++ pathText path) '@' with
  | none => rfl
  | some p2 =>
    obtain ⟨x, y, hxy, rfl, hy⟩ := strrchr_eq_some.1 hr
    have hpath : ∃ q, path = some q ∧ ('@' :: y).length < ('/' :: q).length := by
      by_cases hat : '@' ∈ a
      · obtain ⟨q, rfl, hq⟩ := h hat
        -- the last one of the path is the last one
        obtain ⟨p2, hp2⟩ := Option.ne_none_iff_exists'.1 (mt strrchr_eq_none.1 (not_not.2 hq))
        obtain ⟨u, v, rfl, rfl, hv⟩ := strrchr_eq_some.1 hp2
        have hlast : strrchr (a ++ '/' :: u ++ '@' :: v) '@' = some ('@' :: v) := strrchr_append hv
        have heq : a ++ pathText (some (u ++ '@' :: v)) = a ++ '/' :: u ++ '@' :: v := by
          simp [pathText]
        rw [heq, hlast] at hr
        obtain ⟨-, rfl⟩ := List.cons.inj (Option.some.inj hr)
        refine ⟨_, rfl, ?_⟩
        simp only [List.length_cons, List.length_append]
        omega
      · exact behind_slash hat (by decide) hxy
    obtain ⟨q, rfl, hlen⟩ := hpath
    have hslash : strstr (a ++ pathText (some q)) ['/'] = some ('/' :: q) := by
      rw [strstr_singleton, strchr_slash hs]
      rfl
    have hbefore : isBefore (some ('/' :: q)) ('@' :: y) = true := decide_eq_true hlen
    simp only [hslash, hbefore, if_true]

/-- The credentials end at the last `@`. -/
theorem credentials_some {x : CStr × Option CStr} {r : CStr}
    (h : ':' ∉ x.1 ∧ '@' ∉ x.1 ∧ '/' ∉ x.1) (hw : ∀ w ∈ x.2, '@' ∉ w ∧ '/' ∉ w) (hr : '@' ∉ r) :
    credentials (loginText (some x) ++ r) =
      some { username := some x.1, password := x.2, p1 := r } := by
  have hslash : '/' ∉ loginText (some x) := by
    refine slash_not_mem_login (fun y hy => ?_) (fun y hy => ?_)
    · obtain rfl := Option.some.inj hy
      exact h
    · obtain rfl := Option.some.inj hy
      exact hw
  have hbefore : isBefore (strchr (loginText (some x) ++ r) '/') ('@' :: r) = false := by
    cases hp3 : strchr (loginText (some x) ++ r) '/' with
    | none => rfl
    | some p3 =>
      obtain ⟨u, v, huv, rfl, -⟩ := strchr_eq_some.1 hp3
      have hlen := length_behind hslash huv
      refine decide_eq_false ?_
      rw [List.length_cons (a := '@')]
      omega
  obtain ⟨user, w⟩ := x
  obtain ⟨hcolon, hat, -⟩ := h
  unfold credentials
  cases w with
  | none =>
    have heq : loginText (some (user, none)) ++ r = user ++ '@' :: r := by simp [loginText]
    rw [heq] at hbefore ⊢
    have hlast : strrchr (user ++ '@' :: r) '@' = some ('@' :: r) := strrchr_append hr
    have hcopy : strncpy (user ++ '@' :: r) ((user ++ '@' :: r).length - ('@' :: r).length) =
        some user := strncpy_append rfl
    simp only [hlast, hbefore, hcopy, Bool.false_eq_true, if_false, Option.bind_some,
      strstr_singleton]
    cases hp3 : strchr (user ++ '@' :: r) ':' with
    | none => rfl
    | some p3 =>
      obtain ⟨u, v, huv, rfl, -⟩ := strchr_eq_some.1 hp3
      have hlen := length_behind hcolon huv
      exact if_neg (Nat.not_lt.2 hlen)
  | some w =>
    have heq : loginText (some (user, some w)) ++ r = user ++ ':' :: w ++ '@' :: r := by
      simp [loginText]
    rw [heq] at hbefore ⊢
    have hlast : strrchr (user ++ ':' :: w ++ '@' :: r) '@' = some ('@' :: r) := strrchr_append hr
    have hcopy : strncpy (user ++ ':' :: w ++ '@' :: r)
        ((user ++ ':' :: w ++ '@' :: r).length - ('@' :: r).length) = some (user ++ ':' :: w) :=
      strncpy_append rfl
    have hp3 : strchr (user ++ ':' :: w ++ '@' :: r) ':' = some (':' :: (w ++ '@' :: r)) := by
      rw [List.append_assoc]
      exact strchr_append hcolon
    have hlen : ('@' :: r).length < (':' :: (w ++ '@' :: r)).length := by
      simp only [List.length_cons, List.length_append]
      omega
    have hpassword : strncpy ((':' :: (w ++ '@' :: r)).drop 1)
        ((':' :: (w ++ '@' :: r)).length - ('@' :: r).length - 1) = some w := by
      refine strncpy_append ?_
      rw [List.length_cons (a := ':')]
      omega
    have huser : (user ++ ':' :: w).take
        ((user ++ ':' :: w ++ '@' :: r).length - (':' :: (w ++ '@' :: r)).length) = user := by
      have hn : (user ++ ':' :: w ++ '@' :: r).length - (':' :: (w ++ '@' :: r)).length =
          user.length := by
        simp only [List.length_cons, List.length_append]
        omega
      rw [hn, List.take_left]
    simp only [hlast, hbefore, hcopy, hp3, hlen, hpassword, huser, Bool.false_eq_true, if_false,
      if_true, Option.bind_some, Option.map_some, strstr_singleton]
    rfl

theorem ip6End_name (hn : ']' ∉ a) (hs : '/' ∉ a) : ip6End (a ++ pathText path) = none := by
  unfold ip6End
  rw [Option.bind_eq_none_iff]
  intro p2 _
  rw [Option.bind_eq_none_iff]
  intro p3 hp3
  rw [strstr_singleton] at hp3
  obtain ⟨x, y, hxy, rfl, -⟩ := strchr_eq_some.1 hp3
  obtain ⟨q, rfl, hlen⟩ := behind_slash hn (by decide) hxy
  rw [strstr_singleton, strchr_slash hs]
  refine if_neg fun h => ?_
  have hlen' := of_decide_eq_true h.2
  exact absurd hlen' (Nat.not_lt.2 hlen.le)

theorem ip6End_ip6 {r : CStr} (hb : ']' ∉ a) (hs : '/' ∉ a) :
    ip6End ('[' :: (a ++ ']' :: r)) = some (']' :: r) := by
  have hclose : ']' ∉ '[' :: a := by simp [hb]
  have hslash : '/' ∉ '[' :: a ++ [']'] := by simp [hs]
  have hp2 : strchr ('[' :: (a ++ ']' :: r)) '[' = some ('[' :: (a ++ ']' :: r)) := if_pos rfl
  have hp3 : strchr ('[' :: a ++ ']' :: r) ']' = some (']' :: r) := strchr_append hclose
  rw [List.cons_append] at hp3
  unfold ip6End
  simp only [strstr_singleton, hp2, hp3, Option.bind_some]
  refine if_pos ⟨?_, ?_⟩
  · simp only [List.length_cons, List.length_append]
    omega
  · cases hp4 : strchr ('[' :: (a ++ ']' :: r)) '/' with
    | none => rfl
    | some p4 =>
      obtain ⟨x, y, hxy, rfl, -⟩ := strchr_eq_some.1 hp4
      have heq : '[' :: a ++ [']'] ++ r = x ++ '/' :: y := by simpa using hxy
      exact decide_eq_true (Nat.lt_succ_of_le (length_behind hslash heq))

/-- The host ends at the port, the path or the end; behind an address there is one bracket more. -/
theorem hostPart_eq {y z : CStr} {v6addr : Bool} (hz : z.length = v6addr.toNat)
    (hs : '/' ∉ a ++ z) (hy : ':' ∉ y) (hd : ∀ d ∈ port, ∀ c ∈ d, c.isDigit)
    (hp : ∀ d ∈ port, atoiDigits d < 2 ^ 31) :
    hostPart (a ++ (z ++ (portText port ++ pathText path)))
      (y ++ (portText port ++ pathText path)) v6addr =
      some { hostname := a, port := (port.map atoiDigits).getD 0
             file := '/' :: path.getD [] } := by
  have hslash : strstr (a ++ (z ++ (portText port ++ pathText path))) ['/'] =
      path.map ('/' :: ·) := by
    have hports : '/' ∉ a ++ z ++ portText port := by
      rw [List.mem_append, not_or]
      exact ⟨hs, not_mem_digits hd (by decide) (by decide)⟩
    have heq : a ++ (z ++ (portText port ++ pathText path)) =
        a ++ z ++ portText port ++ pathText path := by simp
    rw [strstr_singleton, heq]
    exact strchr_slash hports
  have hcolon : ((strchr (y ++ (portText port ++ pathText path)) ':').filter fun p2 =>
      !isBefore (path.map ('/' :: ·)) p2) = _ := filter_colon hy hd
  have hport : ∀ d ∈ port, u32 (atoi (d ++ pathText path)) = atoiDigits d := by
    intro d hd'
    have hlt : atoiDigits d < 2 ^ 32 := (hp d hd').trans (by decide)
    rw [atoi_digits (hd d hd'), u32]
    omega
  have hfile : ∀ q : CStr, (if 1 < ('/' :: q).length then '/' :: q else ['/']) = '/' :: q := by
    intro q
    cases q with
    | nil => rfl
    | cons c q => rfl
  have hhost : ∀ pos2 : Int, pos2 = -(portText port ++ pathText path).length →
      strncpy (a ++ (z ++ (portText port ++ pathText path)))
        ((if v6addr then pos2 - 1 else pos2) +
          (a ++ (z ++ (portText port ++ pathText path))).length) = some a := by
    rintro _ rfl
    refine strncpy_append ?_
    have hlen : (z ++ (portText port ++ pathText path)).length =
        v6addr.toNat + (portText port ++ pathText path).length := by rw [List.length_append, hz]
    rw [hlen]
    cases v6addr with
    | false => simp only [Bool.false_eq_true, if_false, Bool.toNat_false]; omega
    | true => simp only [if_true, Bool.toNat_true]; omega
  unfold hostPart
  simp only [hslash, strstr_singleton, hcolon]
  rw [hhost]
  · cases port with
    | none =>
      cases path with
      | none => rfl
      | some q => simp only [Option.map_some, Option.map_none, hfile]; rfl
    | some d =>
      have hatoi := hport d rfl
      cases path with
      | none => simp only [Option.map_some, List.drop_one, List.tail_cons, hatoi]; rfl
      | some q => simp only [Option.map_some, List.drop_one, List.tail_cons, hatoi, hfile]; rfl
  · cases port with
    | none =>
      cases path with
      | none => rfl
      | some q => rfl
    | some d => rfl

/-- The host of a URL, from the end of the credentials on. -/
theorem hostFrom_eq {h : UrlHost} (hbare : '/' ∉ h.bare ∧ ']' ∉ h.bare)
    (hname : ∀ n, h = .name n → ':' ∉ n) (hd : ∀ d ∈ port, ∀ c ∈ d, c.isDigit)
    (hp : ∀ d ∈ port, atoiDigits d < 2 ^ 31) :
    hostFrom (h.text ++ (portText port ++ pathText path)) =
      some { hostname := h.bare, port := (port.map atoiDigits).getD 0
             file := '/' :: path.getD [] } := by
  obtain ⟨hslash, hclose⟩ := hbare
  cases h with
  | name n =>
    have hend : ip6End (n ++ (portText port ++ pathText path)) = none := by
      have hnot : ∀ c ∉ n, c.isDigit = false → c ≠ ':' → c ∉ n ++ portText port := by
        intro c hc hdigit hne
        rw [List.mem_append, not_or]
        exact ⟨hc, not_mem_digits hd hdigit hne⟩
      rw [← List.append_assoc]
      exact ip6End_name (hnot _ hclose (by decide) (by decide)) (hnot _ hslash (by decide) (by decide))
    have hslash' : '/' ∉ n ++ [] := by
      rw [List.append_nil]
      exact hslash
    simp only [hostFrom, UrlHost.text, hend]
    exact hostPart_eq (z := []) rfl hslash' (hname n rfl) hd hp
  | ip6 a =>
    have htext : (UrlHost.ip6 a).text ++ (portText port ++ pathText path) =
        '[' :: (a ++ ']' :: (portText port ++ pathText path)) := by simp [UrlHost.text]
    have hslash' : '/' ∉ a ++ [']'] := by
      rw [List.mem_append, not_or]
      exact ⟨hslash, by decide⟩
    have hend : ip6End ('[' :: (a ++ ']' :: (portText port ++ pathText path))) =
        some (']' :: (portText port ++ pathText path)) := ip6End_ip6 hclose hslash
    have hhost : hostPart (a ++ ([']'] ++ (portText port ++ pathText path)))
        ([']'] ++ (portText port ++ pathText path)) true =
        some { hostname := a, port := (port.map atoiDigits).getD 0, file := '/' :: path.getD [] } :=
      hostPart_eq (z := [']']) rfl hslash' (by decide) hd hp
    rw [htext]
    simp only [hostFrom, hend, List.drop_one, List.tail_cons]
    exact hhost

/-- The first `"://"` is the one behind the scheme. -/
theorem strstr_scheme (h : ¬ "://".toList <:+: a) :
    strstr (a ++ ("://".toList ++ b)) "://".toList = some ("://".toList ++ b) := by
  refine (strstr_eq_some (by decide)).2 ⟨a, rfl, ⟨b, rfl⟩, ?_⟩
  rintro a' q' heq ⟨z, rfl⟩
  by_contra hlt
  rw [Nat.not_le] at hlt
  obtain ⟨c, u, rfl, hu⟩ := split_before heq hlt
  -- it would have to end inside of this one
  have htext : "://".toList = [':', '/', '/'] := rfl
  rw [htext] at h hu
  match u with
  | [] => simp at hu
  | [d] => simp at hu
  | d :: e :: u =>
    simp only [List.cons_append, List.cons.injEq] at hu
    obtain ⟨rfl, rfl, rfl, -⟩ := hu
    exact h ⟨a', u, by simp⟩

/-! ## The whole URL -/

variable {p : UrlParts} {c : Credentials} {u : CdxUrl}

theorem parseUrl_eq_some (h : parseUrl s p1 = some u) : ∃ c, credentials (p1.drop 3) = some c ∧
    u.url = s ∧ u.username = c.username := by
  unfold parseUrl at h
  obtain ⟨protocol, -, h⟩ := Option.bind_eq_some_iff.1 h
  obtain ⟨c, hc, h⟩ := Option.bind_eq_some_iff.1 h
  obtain ⟨host, -, rfl⟩ := Option.map_eq_some_iff.1 h
  exact ⟨c, hc, rfl, rfl⟩

/-- What stands behind the credentials, up to the path. -/
def hostText (p : UrlParts) : CStr := p.host.text ++ portText p.port

theorem WellFormed.hostText (h : WellFormed p) : '@' ∉ hostText p ∧ '/' ∉ hostText p := by
  obtain ⟨hat, hslash, -⟩ := h.host
  have hports : ∀ c, c.isDigit = false → c ≠ ':' → c ≠ '[' → c ≠ ']' → c ∉ p.host.bare →
      c ∉ Libcore.hostText p := by
    intro c hdigit hcolon hopen hclose hc
    rw [Libcore.hostText, List.mem_append, not_or]
    refine ⟨?_, not_mem_digits h.digits hdigit hcolon⟩
    cases hhost : p.host with
    | name n =>
      rw [hhost] at hc
      exact hc
    | ip6 a =>
      rw [hhost] at hc
      have hca : c ∉ a := hc
      simp [UrlHost.text, hca, hopen, hclose]
  exact ⟨hports '@' (by decide) (by decide) (by decide) (by decide) hat,
    hports '/' (by decide) (by decide) (by decide) (by decide) hslash⟩

/-- The parser finds the parts, but that an `@` in the path hides the credentials. -/
theorem parseUrl_iff (h : WellFormed p) :
    parseUrl (render p) ("://".toList ++ (loginText p.login ++
      (p.host.text ++ (portText p.port ++ pathText p.path)))) = some (fields p) ↔
    (p.login.isSome → ∀ q ∈ p.path, '@' ∉ q) := by
  have hdrop : ("://".toList ++ (loginText p.login ++
      (p.host.text ++ (portText p.port ++ pathText p.path)))).drop 3 =
        loginText p.login ++ hostText p ++ pathText p.path := by
    simp only [hostText, List.append_assoc]
    rfl
  obtain ⟨hat, hslash⟩ := h.hostText
  have hprotocol : strncpy (render p) ((render p).length - ("://".toList ++ (loginText p.login ++
      (p.host.text ++ (portText p.port ++ pathText p.path)))).length) = some p.scheme :=
    strncpy_append rfl
  constructor
  · intro hparse hlogin q hq hmem
    obtain ⟨x, hx⟩ := Option.isSome_iff_exists.1 hlogin
    obtain ⟨c, hc, -, huser⟩ := parseUrl_eq_some hparse
    have hslash' : '/' ∉ loginText p.login ++ hostText p := by
      rw [List.mem_append, not_or]
      exact ⟨slash_not_mem_login h.user h.password, hslash⟩
    have hnone : credentials (loginText p.login ++ hostText p ++ pathText p.path) =
        some { p1 := loginText p.login ++ hostText p ++ pathText p.path } :=
      credentials_none hslash' fun _ => ⟨q, hq, hmem⟩
    rw [hdrop, hnone] at hc
    cases hc
    rw [fields, hx] at huser
    cases huser
  · intro hpath
    have hcred : credentials (loginText p.login ++ hostText p ++ pathText p.path) =
        some { username := p.login.map Prod.fst, password := p.login.bind Prod.snd
               p1 := hostText p ++ pathText p.path } := by
      cases hlogin : p.login with
      | none => exact credentials_none hslash fun hmem => absurd hmem hat
      | some x =>
        rw [hlogin] at hpath
        have hat' : '@' ∉ hostText p ++ pathText p.path := by
          rw [List.mem_append, not_or]
          refine ⟨hat, ?_⟩
          cases hq : p.path with
          | none => exact List.not_mem_nil
          | some q => simp [pathText, hpath rfl q hq]
        rw [List.append_assoc]
        exact credentials_some (h.user x hlogin) (h.password x hlogin) hat'
    have hhost : hostFrom (hostText p ++ pathText p.path) =
        some { hostname := p.host.bare, port := (p.port.map atoiDigits).getD 0
               file := '/' :: p.path.getD [] } := by
      rw [hostText, List.append_assoc]
      exact hostFrom_eq h.host.2 (fun n hn => (h.name n hn).1) h.digits h.port
    unfold parseUrl
    rw [hprotocol, Option.bind_some, hdrop, hcred, Option.bind_some, hhost, Option.map_some]
    rfl

theorem alnum_of_isDigit {d : Char} (h : d.isDigit) : alnum d := by
  simp only [Char.isDigit, Bool.and_eq_true, decide_eq_true_eq] at h
  simp only [alnum, Bool.or_eq_true, Bool.and_eq_true, decide_eq_true_eq]
  exact Or.inr h

/-- Escaping the URL is escaping its parts. -/
theorem esc_render (h : WellFormed p) : esc (render p) = render p.escaped := by
  have hpath : esc (pathText p.path) = pathText (p.path.map esc) := by
    cases p.path with
    | none => rfl
    | some q => exact esc_kept (by decide)
  have hapart : Apart (pathText p.path) := by
    cases p.path with
    | none => exact apart_nil
    | some q => exact apart_cons (by decide)
  have hport : esc (portText p.port ++ pathText p.path) =
      portText p.port ++ pathText (p.path.map esc) := by
    cases hd : p.port with
    | none => exact hpath
    | some d =>
      have hdigits : ∀ c ∈ d, alnum c := fun c hc => alnum_of_isDigit (h.digits d hd c hc)
      rw [portText, List.cons_append, esc_kept (by decide), esc_append hapart, esc_alnum hdigits,
        hpath, List.cons_append]
  have hports : Apart (portText p.port ++ pathText p.path) := by
    cases p.port with
    | none => exact hapart
    | some d => exact apart_cons (by decide)
  have hhost : esc (p.host.text ++ (portText p.port ++ pathText p.path)) =
      p.escaped.host.text ++ (portText p.port ++ pathText (p.path.map esc)) := by
    rw [← hport]
    unfold UrlParts.escaped
    cases p.host with
    | name n => exact esc_append hports
    | ip6 a =>
      simp only [UrlHost.text, List.cons_append, List.append_assoc, List.nil_append]
      rw [esc_kept (by decide), esc_append_kept (by decide)]
  have hlogin : esc (loginText p.login ++ (p.host.text ++ (portText p.port ++ pathText p.path))) =
      loginText p.escaped.login ++
        (p.escaped.host.text ++ (portText p.port ++ pathText (p.path.map esc))) := by
    rw [← hhost]
    unfold UrlParts.escaped
    match p.login with
    | none => rfl
    | some (user, none) =>
      simp only [loginText, Option.map_some, Option.map_none, List.append_assoc, List.cons_append,
        List.nil_append]
      exact esc_append_kept (by decide)
    | some (user, some w) =>
      simp only [loginText, Option.map_some, List.append_assoc, List.cons_append, List.nil_append]
      rw [esc_append_kept (by decide), esc_append_kept (by decide)]
  have hkept : ∀ d ∈ "://".toList, kept d := List.all_eq_true.1 (by decide)
  rw [render, esc_append_text hkept (by decide), hlogin]
  rfl

theorem WellFormed.escaped (h : WellFormed p) : WellFormed p.escaped where
  scheme := by
    rintro ⟨x, y, hxy⟩
    rw [List.append_assoc] at hxy
    obtain ⟨a, b, hab, -⟩ := esc_infix (List.all_eq_true.1 (by decide)) (by decide) hxy.symm
    exact h.scheme ⟨a, b, by rw [hab, List.append_assoc]⟩
  user := by
    intro x hx
    obtain ⟨y, hy, rfl⟩ := Option.map_eq_some_iff.1 hx
    obtain ⟨hcolon, hat, hslash⟩ := h.user y hy
    exact ⟨mt (mem_esc (by decide)).1 hcolon, mt (mem_esc (by decide)).1 hat,
      mt (mem_esc (by decide)).1 hslash⟩
  password := by
    intro x hx w hw
    obtain ⟨y, hy, rfl⟩ := Option.map_eq_some_iff.1 hx
    obtain ⟨v, hv, rfl⟩ := Option.map_eq_some_iff.1 hw
    obtain ⟨hat, hslash⟩ := h.password y hy v hv
    exact ⟨mt (mem_esc (by decide)).1 hat, mt (mem_esc (by decide)).1 hslash⟩
  host := by
    have hbare : p.escaped.host.bare = esc p.host.bare := by
      unfold UrlParts.escaped
      cases p.host with
      | name n => rfl
      | ip6 a => rfl
    obtain ⟨hat, hslash, hclose⟩ := h.host
    rw [hbare]
    exact ⟨mt (mem_esc (by decide)).1 hat, mt (mem_esc (by decide)).1 hslash,
      mt (mem_esc (by decide)).1 hclose⟩
  name := by
    intro n hn
    cases hhost : p.host with
    | name m =>
      obtain ⟨hcolon, hopen⟩ := h.name m hhost
      simp only [UrlParts.escaped, hhost] at hn
      cases hn
      exact ⟨mt (mem_esc (by decide)).1 hcolon, mt (mem_esc (by decide)).1 hopen⟩
    | ip6 a =>
      simp only [UrlParts.escaped, hhost] at hn
      cases hn
  digits := h.digits
  port := h.port

/-! ## Lengths are not negative -/

theorem credentials_isSome : (credentials s).isSome := by
  unfold credentials
  split
  next => rfl
  next p2 hp2 =>
    have hlen := length_strrchr hp2
    split
    next => rfl
    next =>
      rw [strncpy_eq (by omega), Option.bind_some]
      split
      next p3 hp3 =>
        split
        next hlt =>
          rw [strncpy_eq (by omega)]
          rfl
        next => rfl
      next => rfl

/-- What is found behind a bracket begins behind it. -/
theorem length_strchr_tail {c d : Char} {q : CStr} (hne : d ≠ c)
    (h : strchr (d :: s) c = some q) : q.length ≤ s.length := by
  rw [strchr, if_neg hne] at h
  exact (length_strchr h).2

theorem hostPart_isSome_of_le {p2 : CStr} {v6addr : Bool}
    (hcolon : ∀ q, strchr p2 ':' = some q → q.length + v6addr.toNat ≤ p1.length)
    (hslash : ∀ q, strchr p1 '/' = some q → q.length + v6addr.toNat ≤ p1.length)
    (hlen : v6addr.toNat ≤ p1.length) : (hostPart p1 p2 v6addr).isSome := by
  unfold hostPart
  simp only [Option.isSome_map, strstr_singleton]
  rw [strncpy_eq]
  · rfl
  · cases hq : (strchr p2 ':').filter fun p2 => !isBefore (strchr p1 '/') p2 with
    | some q =>
      have hle := hcolon q (Option.filter_eq_some_iff.1 hq).1
      cases v6addr with
      | false => simp only [Bool.toNat_false, Bool.false_eq_true, if_false] at hle ⊢; omega
      | true => simp only [Bool.toNat_true, if_true] at hle ⊢; omega
    | none =>
      cases hp3 : strchr p1 '/' with
      | some q =>
        have hle := hslash q hp3
        cases v6addr with
        | false => simp only [Bool.toNat_false, Bool.false_eq_true, if_false] at hle ⊢; omega
        | true => simp only [Bool.toNat_true, if_true] at hle ⊢; omega
      | none =>
        cases v6addr with
        | false => simp
        | true => simp only [Bool.toNat_true, if_true] at hlen ⊢; omega

theorem hostFrom_isSome : (hostFrom s).isSome := by
  unfold hostFrom
  split
  next p3 hend =>
    obtain ⟨p2, hp2, hend⟩ := Option.bind_eq_some_iff.1 hend
    obtain ⟨p3', hp3, hend⟩ := Option.bind_eq_some_iff.1 hend
    split at hend
    next hif =>
      obtain ⟨hlt, hslash⟩ := hif
      cases hend
      rw [strstr_singleton] at hp2 hp3 hslash
      have hlen2 := (length_strchr hp2).2
      obtain ⟨x, y, -, rfl, -⟩ := strchr_eq_some.1 hp3
      cases s with
      | nil => cases hp2
      | cons d s =>
        rw [List.drop_one, List.tail_cons]
        rw [List.length_cons] at hlen2
        refine hostPart_isSome_of_le (fun q hq => ?_) (fun q hq => ?_) ?_
        · have hle := length_strchr_tail (by decide) hq
          rw [List.length_cons] at hlt
          simp only [Bool.toNat_true]
          omega
        · by_cases hd : d = '/'
          · -- the string does not begin with a `/`
            rw [strchr, if_pos hd] at hslash
            have hlt' := of_decide_eq_true hslash
            rw [List.length_cons] at hlt'
            omega
          · rw [strchr, if_neg hd, hq] at hslash
            have hlt' := of_decide_eq_true hslash
            simp only [Bool.toNat_true]
            omega
        · simp only [Bool.toNat_true]
          have hpos := (length_strchr hp3).1
          omega
    next => cases hend
  next =>
    exact hostPart_isSome_of_le (fun q hq => (length_strchr hq).2)
      (fun q hq => (length_strchr hq).2) (Nat.zero_le _)

theorem parseUrl_isSome (h : p1.length ≤ s.length) : (parseUrl s p1).isSome := by
  obtain ⟨c, hc⟩ := Option.isSome_iff_exists.1 (credentials_isSome (s := p1.drop 3))
  unfold parseUrl
  rw [strncpy_eq (by omega), Option.bind_some, hc, Option.bind_some, Option.isSome_map]
  exact hostFrom_isSome

/-! ## `CdxUrlNew` -/

/-- The memory for the escaped string is there. -/
def Fits (room : Nat) (url : CStr) : Prop :=
  url.length ≤ (2 ^ 32 - 1) / 3 - 1 ∧ url.length * 3 + 1 ≤ room

theorem CdxUrlNew_of_fits (h : Fits room url) : CdxUrlNew room url =
    match strstr (CdxUrlEscapeString url) "://".toList with
    | some p1 => (parseUrl (CdxUrlEscapeString url) p1).map some
    | none => if "sip:".toList.isPrefixOf (CdxUrlEscapeString url) then none else some none := by
  unfold CdxUrlNew
  exact (if_neg (Nat.not_lt.2 h.1)).trans (if_neg (Nat.not_lt.2 h.2))

theorem CdxUrlNew_of_not_fits (h : ¬ Fits room url) : CdxUrlNew room url = some none := by
  unfold CdxUrlNew
  split
  next => rfl
  next hlen => exact if_pos (Nat.not_le.1 fun hroom => h ⟨Nat.not_lt.1 hlen, hroom⟩)

theorem sip_prefix_esc : "sip:".toList <+: esc s ↔ "sip:".toList <+: s := by
  have htext : "sip:".toList = "sip".toList ++ [':'] := rfl
  rw [htext]
  constructor
  · rintro ⟨y, hy⟩
    rw [List.append_assoc] at hy
    obtain ⟨a, b, rfl, ha, -⟩ := esc_split (d := ':') (by decide) hy.symm
    have hself : esc a = a := by
      refine esc_eq_self ?_
      rw [ha]
      decide
    rw [← hself, ha]
    exact ⟨b, List.append_assoc _ _ _⟩
  · rintro ⟨y, rfl⟩
    have hsip : esc "sip".toList = "sip".toList := esc_alnum (List.all_eq_true.1 (by decide))
    refine ⟨esc y, ?_⟩
    rw [List.append_assoc, List.append_assoc, List.singleton_append, List.singleton_append,
      esc_append_kept (by decide), hsip]

/-- With `sip:` and no `"://"` the pointer to the `:` is one into the other string. -/
theorem CdxUrlNew_eq_none_iff : CdxUrlNew room url = none ↔
    Fits room url ∧ ¬ "://".toList <:+: url ∧ "sip:".toList <+: url := by
  have hsep : "://".toList <:+: CdxUrlEscapeString url ↔ "://".toList <:+: url :=
    infix_escapeString (List.all_eq_true.1 (by decide)) (by decide) ⟨['['], rfl⟩
  by_cases hfits : Fits room url
  · rw [CdxUrlNew_of_fits hfits, ← hsep]
    cases hp1 : strstr (CdxUrlEscapeString url) "://".toList with
    | some p1 =>
      obtain ⟨a, hurl, hpre, -⟩ := (strstr_eq_some (by decide)).1 hp1
      have hlen : p1.length ≤ (CdxUrlEscapeString url).length := by
        rw [hurl, List.length_append]
        exact Nat.le_add_left _ _
      obtain ⟨u, hu⟩ := Option.isSome_iff_exists.1 (parseUrl_isSome hlen)
      simp only [hu, Option.map_some]
      refine iff_of_false (fun h => nomatch h) fun h => h.2.1 ?_
      rw [hurl]
      exact hpre.isInfix.trans (List.suffix_append _ _).isInfix
    | none =>
      have hnot := (strstr_eq_none (by decide)).1 hp1
      have hip6 : behindIp6 url = none := by
        cases hs : behindIp6 url with
        | none => rfl
        | some rest =>
          obtain ⟨a, b, h⟩ := behindIp6_iff.1 hs
          rw [hsep, h.eq] at hnot
          exact absurd ⟨a, _, by rw [List.append_assoc]; rfl⟩ hnot
      rw [escapeString_none hip6] at hnot ⊢
      rw [and_iff_right hfits, and_iff_right hnot, ← sip_prefix_esc]
      dsimp only
      rw [← List.isPrefixOf_iff_prefix]
      split
      next hsip => exact iff_of_true rfl hsip
      next hsip => exact iff_of_false (fun h => nomatch h) hsip
  · rw [CdxUrlNew_of_not_fits hfits]
    exact iff_of_false (fun h => nomatch h) fun h => hfits h.1

/-- When the parts of a URL are found. -/
theorem CdxUrlNew_render_iff {p : UrlParts} (h : WellFormed p) :
    CdxUrlNew room (render p) = some (some (fields p.escaped)) ↔
      Fits room (render p) ∧ CopiedPlain (render p) ∧
        (p.login.isSome → ∀ q ∈ p.path, '@' ∉ q) := by
  by_cases hfits : Fits room (render p)
  · rw [CdxUrlNew_of_fits hfits, ← escapeString_eq_esc_iff, esc_render h]
    have hat : (p.escaped.login.isSome → ∀ q ∈ p.escaped.path, '@' ∉ q) ↔
        (p.login.isSome → ∀ q ∈ p.path, '@' ∉ q) := by
      have hmem : ∀ q : CStr, '@' ∈ esc q ↔ '@' ∈ q := fun q => mem_esc (by decide)
      simp [UrlParts.escaped, hmem]
    have hparse : strstr (render p.escaped) "://".toList = some ("://".toList ++
        (loginText p.escaped.login ++
          (p.escaped.host.text ++ (portText p.escaped.port ++ pathText p.escaped.path)))) :=
      strstr_scheme h.escaped.scheme
    constructor
    · intro hnew
      have hesc : CdxUrlEscapeString (render p) = render p.escaped := by
        cases hp1 : strstr (CdxUrlEscapeString (render p)) "://".toList with
        | none =>
          rw [hp1] at hnew
          dsimp only at hnew
          split at hnew
          next => cases hnew
          next => cases hnew
        | some p1 =>
          rw [hp1] at hnew
          obtain ⟨u, hu, heq⟩ := Option.map_eq_some_iff.1 hnew
          obtain ⟨c, -, hurl, -⟩ := parseUrl_eq_some hu
          rw [← hurl, Option.some.inj heq]
          rfl
      rw [hesc, hparse] at hnew
      obtain ⟨u, hu, heq⟩ := Option.map_eq_some_iff.1 hnew
      rw [Option.some.inj heq] at hu
      exact ⟨hfits, hesc, hat.1 ((parseUrl_iff h.escaped).1 hu)⟩
    · rintro ⟨-, hesc, hpath⟩
      simp only [hesc, hparse, (parseUrl_iff h.escaped).2 (hat.2 hpath), Option.map_some]
  · rw [CdxUrlNew_of_not_fits hfits]
    refine iff_of_false (fun heq => ?_) fun h => hfits h.1
    cases Option.some.inj heq

/-- Parsing goes right in all respects where the string is not a `sip:` one without `"://"`, and,
when it is a URL of the usual form, the memory is there, nothing that has to be escaped is copied
with an address in brackets, and no path behind credentials has an `@`. -/
theorem CdxUrlNew_iff (room : Nat) (url : CStr) :
    (CdxUrlNew room url ≠ none ∧
      (∀ p, WellFormed p → url = render p →
        CdxUrlNew room url = some (some (fields p.escaped))) ∧
      CdxUrlEscapeString (CdxUrlEscapeString url) = CdxUrlEscapeString url ∧
      (CdxUrlEscapeString url).length ≤ 3 * url.length) ↔
    ¬ (Fits room url ∧ ¬ "://".toList <:+: url ∧ "sip:".toList <+: url) ∧
      ∀ p, WellFormed p → url = render p →
        Fits room url ∧ CopiedPlain url ∧ (p.login.isSome → ∀ q ∈ p.path, '@' ∉ q) := by
  rw [Ne, CdxUrlNew_eq_none_iff]
  constructor
  · rintro ⟨hsip, hrender, -⟩
    refine ⟨hsip, fun p hwf hurl => ?_⟩
    subst hurl
    exact (CdxUrlNew_render_iff hwf).1 (hrender p hwf rfl)
  · rintro ⟨hsip, hrender⟩
    refine ⟨hsip, fun p hwf hurl => ?_, escapeString_escapeString, length_escapeString⟩
    subst hurl
    exact (CdxUrlNew_render_iff hwf).2 (hrender p hwf rfl)

/-- A `sip:` string, and a URL whose credentials are lost. -/
theorem CdxUrlNew_not : CdxUrlNew 1000 "sip:a".toList = none ∧
    ∃ p, WellFormed p ∧ render p = "http://u:p@h/p@th".toList ∧
      (fields p.escaped).username = some "u".toList ∧
      ∃ c, CdxUrlNew 1000 (render p) = some (some c) ∧ c.username = none := by
  refine ⟨by decide +kernel, { scheme := "http".toList, login := some ("u".toList, some "p".toList)
                               host := .name "h".toList, port := none, path := some "p@th".toList },
    ?_, by decide, by decide, ?_⟩
  · constructor
    case scheme => decide
    case user =>
      rintro l hl
      obtain rfl := Option.some.inj hl
      decide
    case password =>
      rintro l hl w hw
      obtain rfl := Option.some.inj hl
      obtain rfl := Option.some.inj hw
      decide
    case host => decide
    case name =>
      rintro n hn
      cases hn
      decide
    case digits => exact fun d hd => nomatch hd
    case port => exact fun d hd => nomatch hd
  · exact ⟨{ url := "http://u:p@h/p@th".toList, protocol := "http".toList
             hostname := "u".toList, file := "/p@th".toList, port := 0
             username := none, password := none }, by decide +kernel, rfl⟩

end Melis.Libcore
