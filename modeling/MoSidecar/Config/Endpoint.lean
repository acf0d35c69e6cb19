import MoSidecar.Layout.Delimiters
import MoSidecar.Protocol.Status
import MoSidecar.Protocol.Wire

/-!
# The endpoint of reads

`parse_https_endpoint` takes the URL of `MO_SIDECAR_READ_URL` apart. It looks for the first slash,
for the first closing bracket and, where there is no opening one, for the last colon. What it
answers is stated here as a grammar, `parseHttpsEndpoint_eq_ok`.

The grammar is wider than that of URLs. Without brackets a host may have colons in it, of which the
last is taken to precede a port, and a query or a fragment directly behind the host is a part of the
host. `wellFormed_iff` says for which URLs that are accepted this makes no difference.
-/

namespace MoSidecar

open Delimiters

/-- The bytes of a literal. -/
def ascii (s : String) : Bytes := s.toList.map Char.toUInt8

/-! ## Numbers -/

def isDigit (c : UInt8) : Bool := '0'.toUInt8 ≤ c && c ≤ '9'.toUInt8

/-- The number that digits spell. -/
def decimalValue (digits : Bytes) : ℕ :=
  digits.foldl (fun n c ↦ 10 * n + (c.toNat - '0'.toNat)) 0

/-- `std::from_chars` for an `int`: the number, and what is left behind it. -/
def fromChars (value : Bytes) : Option (ℤ × Bytes) :=
  let negative := value.head? = some '-'.toUInt8
  let unsigned := if negative then value.tail else value
  let digits := unsigned.takeWhile isDigit
  let number : ℤ := if negative then -decimalValue digits else decimalValue digits
  if digits.isEmpty ∨ number < -2 ^ 31 ∨ number > 2 ^ 31 - 1 then none
  else some (number, unsigned.dropWhile isDigit)

/-- `parse_integer`, for an `int`. -/
def parseInteger (name : String) (value : Bytes) (minimum maximum : ℤ) : Except Thrown ℤ :=
  match fromChars value with
  | none => .error (.invalidArgument (name ++ " is outside the accepted range"))
  | some (parsed, rest) =>
    if rest ≠ [] ∨ parsed < minimum ∨ parsed > maximum then
      .error (.invalidArgument (name ++ " is outside the accepted range"))
    else .ok parsed

/-! ## Endpoints -/

/-- `https_endpoint`. -/
@[ext]
structure HttpsEndpoint where
  host : Bytes := []
  port : ℤ := 443
  path : Bytes := []
  deriving DecidableEq

/-- The part of `parse_https_endpoint` that reads the host and the port. -/
def parseAuthority (authority : Bytes) (result : HttpsEndpoint) : Except Thrown HttpsEndpoint :=
  if authority.head? = some '['.toUInt8 then
    match find ']'.toUInt8 authority with
    | none => .error (.invalidArgument "MO_SIDECAR_READ_URL has a malformed IPv6 host")
    | some close =>
      let host := (authority.drop 1).take (close - 1)
      if close + 1 < authority.length then
        if authority[close + 1]? ≠ some ':'.toUInt8 then
          .error (.invalidArgument "MO_SIDECAR_READ_URL has a malformed authority")
        else do
          let port ← parseInteger "MO_SIDECAR_READ_URL port" (authority.drop (close + 2)) 1 65535
          .ok { result with host := host, port := port }
      else .ok { result with host := host }
  else
    match rfind ':'.toUInt8 authority with
    | none => .ok { result with host := authority }
    | some colon => do
      let port ← parseInteger "MO_SIDECAR_READ_URL port" (authority.drop (colon + 1)) 1 65535
      .ok { result with host := authority.take colon, port := port }

/-- The authority and the path, without the scheme. -/
def splitRemainder (remainder : Bytes) : Bytes × Bytes :=
  match find '/'.toUInt8 remainder with
  | none => (remainder, ascii "/")
  | some slash => (remainder.take slash, remainder.drop slash)

/-- `parse_https_endpoint`. -/
def parseHttpsEndpoint (url : Bytes) : Except Thrown HttpsEndpoint :=
  if !(ascii "https://").isPrefixOf url then
    .error (.invalidArgument "MO_SIDECAR_READ_URL must use https://")
  else
    let (authority, path) := splitRemainder (url.drop (ascii "https://").length)
    if authority = [] ∨ path = [] ∨ path.head? ≠ some '/'.toUInt8 ∨ '#'.toUInt8 ∈ path then
      .error (.invalidArgument "MO_SIDECAR_READ_URL is malformed")
    else do
      let result ← parseAuthority authority { path := path }
      if result.host = [] ∨ '@'.toUInt8 ∈ result.host ∨ '/'.toUInt8 ∈ result.host then
        .error (.invalidArgument "MO_SIDECAR_READ_URL host is malformed")
      else .ok result

/-! ## Grammar -/

/-- Digits that spell a port. -/
def IsPort (digits : Bytes) (port : ℤ) : Prop :=
  (digits ≠ [] ∧ ∀ c ∈ digits, isDigit c = true) ∧ (1 ≤ port ∧ port ≤ 65535) ∧
    port = decimalValue digits

/-- What may stand behind a host: nothing, or a colon and a port. -/
def IsPortText (text : Bytes) (port : ℤ) : Prop :=
  text = [] ∧ port = 443 ∨ ∃ digits, text = ':'.toUInt8 :: digits ∧ IsPort digits port

/-- What may stand behind an authority: nothing, or a path. -/
def IsPathText (text path : Bytes) : Prop :=
  text = [] ∧ path = ascii "/" ∨ text.head? = some '/'.toUInt8 ∧ path = text

/-- What is accepted as an authority. -/
def IsAuthority (authority host : Bytes) (port : ℤ) : Prop :=
  ∃ text, IsPortText text port ∧
    (authority = '['.toUInt8 :: (host ++ ']'.toUInt8 :: text) ∧ ']'.toUInt8 ∉ host ∨
      authority = host ++ text ∧ authority.head? ≠ some '['.toUInt8 ∧
        (text = [] → ':'.toUInt8 ∉ host))

variable {url authority value digits before text path host : Bytes} {r : HttpsEndpoint} {port : ℤ}
  {c : UInt8}
  {name : String}

/-- All that `from_chars` can read without a sign. -/
theorem fromChars_eq_some (hsign : value.head? ≠ some '-'.toUInt8) :
    fromChars value = some (port, []) ↔ (value ≠ [] ∧ ∀ c ∈ value, isDigit c = true) ∧
      (decimalValue value : ℤ) ≤ 2 ^ 31 - 1 ∧ port = decimalValue value := by
  rw [fromChars]
  simp only [hsign, if_false]
  by_cases hdigits : ∀ c ∈ value, isDigit c = true
  · rw [List.takeWhile_eq_self_iff.mpr hdigits, List.dropWhile_eq_nil_iff.mpr hdigits]
    have hnonneg := Int.natCast_nonneg (decimalValue value)
    split_ifs with hbad
    · refine iff_of_false nofun fun h ↦ ?_
      rcases hbad with hempty | hlow | hhigh
      · exact h.1.1 (List.isEmpty_iff.mp hempty)
      · omega
      · omega
    · rw [not_or, not_or, List.isEmpty_iff] at hbad
      simp only [Option.some.injEq, Prod.mk.injEq, and_true]
      constructor
      · rintro rfl
        exact ⟨⟨hbad.1, hdigits⟩, by omega, rfl⟩
      · exact fun h ↦ h.2.2.symm
  · refine iff_of_false ?_ fun h ↦ hdigits h.1.2
    split_ifs
    · exact nofun
    · intro h
      exact hdigits (List.dropWhile_eq_nil_iff.mp (Prod.mk.inj (Option.some.inj h)).2)

/-- A number with a sign is not a port. -/
theorem fromChars_nonpos (hsign : value.head? = some '-'.toUInt8) {rest : Bytes}
    (h : fromChars value = some (port, rest)) : port ≤ 0 := by
  rw [fromChars] at h
  simp only [hsign, if_true] at h
  split_ifs at h
  obtain ⟨rfl, -⟩ := Prod.mk.inj (Option.some.inj h)
  omega

theorem parseInteger_eq_ok : parseInteger name value 1 65535 = .ok port ↔ IsPort value port := by
  have hok : parseInteger name value 1 65535 = .ok port ↔
      fromChars value = some (port, []) ∧ 1 ≤ port ∧ port ≤ 65535 := by
    rw [parseInteger]
    cases hread : fromChars value with
    | none => exact iff_of_false nofun fun h ↦ nomatch h.1
    | some p =>
      obtain ⟨parsed, rest⟩ := p
      simp only [Option.some.injEq, Prod.mk.injEq]
      split_ifs with hbad
      · refine iff_of_false nofun ?_
        rintro ⟨⟨rfl, rfl⟩, hrange⟩
        rcases hbad with hrest | hlow | hhigh
        · exact hrest rfl
        · omega
        · omega
      · rw [not_or, not_or, not_not] at hbad
        obtain ⟨rfl, hrange⟩ := hbad
        constructor
        · rintro ⟨⟩
          exact ⟨⟨rfl, rfl⟩, by omega⟩
        · rintro ⟨⟨rfl, -⟩, -⟩
          rfl
  rw [hok, IsPort]
  by_cases hsign : value.head? = some '-'.toUInt8
  · refine iff_of_false (fun h ↦ ?_) fun h ↦ ?_
    · have hle := fromChars_nonpos hsign h.1
      omega
    · exact absurd (h.1.2 _ (List.mem_of_mem_head? hsign)) (by decide)
  · rw [fromChars_eq_some hsign]
    constructor
    · rintro ⟨⟨hdigits, -, hvalue⟩, hrange⟩
      exact ⟨hdigits, hrange, hvalue⟩
    · rintro ⟨hdigits, hrange, hvalue⟩
      exact ⟨⟨hdigits, by omega, hvalue⟩, hrange⟩

/-! ### Authorities -/

theorem colon_notMem (h : IsPort digits port) : ':'.toUInt8 ∉ digits := fun hcolon ↦
  absurd (h.1.2 _ hcolon) (by decide)

theorem isPortText_nil : IsPortText [] port ↔ port = 443 := by
  constructor
  · rintro (⟨-, rfl⟩ | ⟨digits, h, -⟩)
    · rfl
    · cases h
  · rintro rfl
    exact .inl ⟨rfl, rfl⟩

theorem isPortText_cons :
    IsPortText (c :: digits) port ↔ c = ':'.toUInt8 ∧ IsPort digits port := by
  constructor
  · rintro (⟨h, -⟩ | ⟨digits', h, hport⟩)
    · cases h
    · obtain ⟨rfl, rfl⟩ := List.cons.inj h
      exact ⟨rfl, hport⟩
  · rintro ⟨rfl, hport⟩
    exact .inr ⟨digits, rfl, hport⟩

/-- Behind an opening bracket the host ends at the first closing one. -/
theorem isAuthority_bracketed (hnot : ']'.toUInt8 ∉ before) :
    IsAuthority ('['.toUInt8 :: (before ++ ']'.toUInt8 :: text)) host port ↔
      host = before ∧ IsPortText text port := by
  constructor
  · rintro ⟨text', htext, ⟨h, hnot'⟩ | ⟨-, hbracket, -⟩⟩
    · obtain ⟨rfl, rfl⟩ := eq_of_first hnot hnot' (List.cons.inj h).2
      exact ⟨rfl, htext⟩
    · exact absurd rfl hbracket
  · rintro ⟨rfl, htext⟩
    exact ⟨text, htext, .inl ⟨rfl, hnot⟩⟩

/-- Without one it ends at the last colon. -/
theorem isAuthority_colon (hbracket : (before ++ ':'.toUInt8 :: digits).head? ≠ some '['.toUInt8)
    (hnot : ':'.toUInt8 ∉ digits) : IsAuthority (before ++ ':'.toUInt8 :: digits) host port ↔
      host = before ∧ IsPort digits port := by
  constructor
  · rintro ⟨text, htext, ⟨h, -⟩ | ⟨h, -, hcolon⟩⟩
    · exact absurd (congrArg List.head? h) hbracket
    · rcases htext with ⟨rfl, -⟩ | ⟨digits', rfl, hport⟩
      · rw [List.append_nil] at h
        rw [← h] at hcolon
        exact absurd (List.mem_append_right before List.mem_cons_self) (hcolon rfl)
      · obtain ⟨rfl, rfl⟩ := eq_of_last hnot (colon_notMem hport) h
        exact ⟨rfl, hport⟩
  · rintro ⟨rfl, hport⟩
    exact ⟨_, .inr ⟨digits, rfl, hport⟩, .inr ⟨rfl, hbracket, nofun⟩⟩

/-- Without a colon it is all there is. -/
theorem isAuthority_host (hbracket : authority.head? ≠ some '['.toUInt8)
    (hnot : ':'.toUInt8 ∉ authority) :
    IsAuthority authority host port ↔ host = authority ∧ port = 443 := by
  constructor
  · rintro ⟨text, htext, ⟨rfl, -⟩ | ⟨rfl, -, -⟩⟩
    · exact absurd rfl hbracket
    · rcases htext with ⟨rfl, rfl⟩ | ⟨digits, rfl, -⟩
      · exact ⟨(List.append_nil host).symm, rfl⟩
      · exact absurd (List.mem_append_right host List.mem_cons_self) hnot
  · rintro ⟨rfl, rfl⟩
    exact ⟨[], .inl ⟨rfl, rfl⟩, .inr ⟨(List.append_nil host).symm, hbracket, fun _ ↦ hnot⟩⟩

/-- The host is a part of the authority. -/
theorem IsAuthority.mem_of_mem (h : IsAuthority authority host port) (hc : c ∈ host) :
    c ∈ authority := by
  rcases h with ⟨text, -, ⟨rfl, -⟩ | ⟨rfl, -⟩⟩
  · exact List.mem_cons_of_mem _ (List.mem_append_left _ hc)
  · exact List.mem_append_left text hc

theorem parsePort_eq_ok {f : ℤ → HttpsEndpoint} : (do
      let port ← parseInteger "MO_SIDECAR_READ_URL port" digits 1 65535
      .ok (f port)) = .ok r ↔ ∃ port, IsPort digits port ∧ r = f port := by
  rw [bind_eq_ok]
  refine exists_congr fun port ↦ and_congr parseInteger_eq_ok ?_
  rw [Except.ok.injEq, eq_comm]

/-- What is read behind a closing bracket. -/
theorem parseAuthority_bracketed (hnot : ']'.toUInt8 ∉ before) :
    parseAuthority ('['.toUInt8 :: (before ++ ']'.toUInt8 :: text)) { path := path } = .ok r ↔
      (r.host = before ∧ IsPortText text r.port) ∧ r.path = path := by
  have hfind : find ']'.toUInt8 ('['.toUInt8 :: (before ++ ']'.toUInt8 :: text))
      = some (before.length + 1) := by
    refine find_eq_some.mpr ⟨'['.toUInt8 :: before, text, rfl, ?_, List.length_cons⟩
    exact List.not_mem_cons_of_ne_of_not_mem (by decide) hnot
  have hhost : (('['.toUInt8 :: (before ++ ']'.toUInt8 :: text)).drop 1).take
      (before.length + 1 - 1) = before := List.take_left
  have hbehind : (before ++ ']'.toUInt8 :: text).drop (before.length + 1) = text := by
    rw [← List.drop_drop, List.drop_left]
    rfl
  have hlength : before.length + 1 + 1 < ('['.toUInt8 :: (before ++ ']'.toUInt8 :: text)).length ↔
      text ≠ [] := by
    rw [List.length_cons, List.length_append, List.length_cons, ← List.length_pos_iff]
    omega
  have hnext : ('['.toUInt8 :: (before ++ ']'.toUInt8 :: text))[before.length + 1 + 1]?
      = text.head? := by
    rw [List.getElem?_cons_succ, ← List.head?_drop, hbehind]
  have hdigits : ('['.toUInt8 :: (before ++ ']'.toUInt8 :: text)).drop (before.length + 1 + 2)
      = text.tail := by
    rw [List.drop_succ_cons, ← List.tail_drop, hbehind]
  rw [parseAuthority, if_pos List.head?_cons, hfind]
  simp only [hhost, hlength, hnext, hdigits]
  cases text with
  | nil =>
    rw [if_neg (not_not_intro rfl), isPortText_nil, Except.ok.injEq, eq_comm, HttpsEndpoint.ext_iff,
      and_assoc]
  | cons c digits =>
    rw [if_pos (List.cons_ne_nil c digits), isPortText_cons, List.head?_cons, List.tail_cons]
    split_ifs with hcolon
    · exact iff_of_false nofun fun h ↦ hcolon (congrArg some h.1.2.1)
    · rw [not_not, Option.some.injEq] at hcolon
      rw [parsePort_eq_ok, and_iff_right hcolon]
      constructor
      · rintro ⟨port, hport, rfl⟩
        exact ⟨⟨rfl, hport⟩, rfl⟩
      · rintro ⟨⟨rfl, hport⟩, rfl⟩
        exact ⟨r.port, hport, rfl⟩

theorem parseAuthority_eq_ok : parseAuthority authority { path := path } = .ok r ↔
    IsAuthority authority r.host r.port ∧ r.path = path := by
  by_cases hbracket : authority.head? = some '['.toUInt8
  · cases authority with
    | nil => cases hbracket
    | cons c rest =>
      obtain rfl := Option.some.inj hbracket
      by_cases hclose : ']'.toUInt8 ∈ rest
      · obtain ⟨before, text, rfl, hnot⟩ := List.eq_append_cons_of_mem hclose
        rw [parseAuthority_bracketed hnot, isAuthority_bracketed hnot]
      · have hfind : find ']'.toUInt8 ('['.toUInt8 :: rest) = none :=
          find_eq_none.mpr (List.not_mem_cons_of_ne_of_not_mem (by decide) hclose)
        rw [parseAuthority, if_pos hbracket, hfind]
        refine iff_of_false nofun ?_
        rintro ⟨⟨text, -, ⟨h, -⟩ | ⟨-, hplain, -⟩⟩, -⟩
        · rw [(List.cons.inj h).2] at hclose
          exact hclose (List.mem_append_right _ List.mem_cons_self)
        · exact hplain hbracket
  · cases hfind : rfind ':'.toUInt8 authority with
    | none =>
      have hnot := rfind_eq_none.mp hfind
      rw [parseAuthority, if_neg hbracket, hfind, isAuthority_host hbracket hnot]
      simp only
      rw [Except.ok.injEq, eq_comm, HttpsEndpoint.ext_iff, and_assoc]
    | some colon =>
      rw [parseAuthority, if_neg hbracket, hfind]
      obtain ⟨before, digits, rfl, hnot, rfl⟩ := rfind_eq_some.mp hfind
      have hdigits : (before ++ ':'.toUInt8 :: digits).drop (before.length + 1) = digits := by
        rw [← List.drop_drop, List.drop_left]
        rfl
      simp only [List.take_left, hdigits]
      rw [isAuthority_colon hbracket hnot, parsePort_eq_ok]
      constructor
      · rintro ⟨port, hport, rfl⟩
        exact ⟨⟨rfl, hport⟩, rfl⟩
      · rintro ⟨⟨rfl, hport⟩, rfl⟩
        exact ⟨r.port, hport, rfl⟩

/-! ### URLs -/

theorem splitRemainder_eq : splitRemainder value = (authority, path) ↔
    ∃ text, value = authority ++ text ∧ '/'.toUInt8 ∉ authority ∧ IsPathText text path := by
  rw [splitRemainder]
  cases hfind : find '/'.toUInt8 value with
  | none =>
    have hnot := find_eq_none.mp hfind
    simp only [Prod.mk.injEq]
    constructor
    · rintro ⟨rfl, rfl⟩
      exact ⟨[], (List.append_nil value).symm, hnot, .inl ⟨rfl, rfl⟩⟩
    · rintro ⟨text, rfl, -, ⟨rfl, rfl⟩ | ⟨hslash, -⟩⟩
      · exact ⟨List.append_nil authority, rfl⟩
      · exact absurd (List.mem_append_right authority (List.mem_of_mem_head? hslash)) hnot
  | some slash =>
    obtain ⟨before, after, rfl, hnot, rfl⟩ := find_eq_some.mp hfind
    simp only [List.take_left, List.drop_left, Prod.mk.injEq]
    constructor
    · rintro ⟨rfl, rfl⟩
      exact ⟨_, rfl, hnot, .inr ⟨rfl, rfl⟩⟩
    · rintro ⟨text, h, hnot', ⟨rfl, rfl⟩ | ⟨hslash, rfl⟩⟩
      · rw [List.append_nil] at h
        rw [← h] at hnot'
        exact absurd (List.mem_append_right before List.mem_cons_self) hnot'
      · cases path with
        | nil => cases hslash
        | cons c path =>
          obtain rfl := Option.some.inj hslash
          obtain ⟨rfl, rfl⟩ := eq_of_first hnot hnot' h
          exact ⟨rfl, rfl⟩

theorem IsPathText.head?_eq (h : IsPathText text path) : path.head? = some '/'.toUInt8 := by
  rcases h with ⟨-, rfl⟩ | ⟨hslash, rfl⟩
  · rfl
  · exact hslash

/-- What `parse_https_endpoint` accepts, and what it answers. -/
theorem parseHttpsEndpoint_eq_ok : parseHttpsEndpoint url = .ok r ↔
    ∃ authority text, url = ascii "https://" ++ (authority ++ text) ∧ '/'.toUInt8 ∉ authority ∧
      (IsPathText text r.path ∧ '#'.toUInt8 ∉ r.path) ∧ IsAuthority authority r.host r.port ∧
        r.host ≠ [] ∧ '@'.toUInt8 ∉ r.host := by
  rw [parseHttpsEndpoint]
  split_ifs with hscheme
  · refine iff_of_false nofun ?_
    rintro ⟨authority, text, rfl, -⟩
    rw [List.isPrefixOf_iff_prefix.mpr (List.prefix_append _ _)] at hscheme
    cases hscheme
  · rw [Bool.not_eq_true', Bool.not_eq_false, List.isPrefixOf_iff_prefix] at hscheme
    obtain ⟨remainder, rfl⟩ := hscheme
    rw [List.drop_left]
    constructor
    · obtain ⟨⟨authority, path⟩, hsplit⟩ : ∃ p, splitRemainder remainder = p := ⟨_, rfl⟩
      rw [hsplit]
      obtain ⟨text, rfl, hslash, htext⟩ := splitRemainder_eq.mp hsplit
      intro h
      simp only at h
      split_ifs at h with hbad
      obtain ⟨result, hresult, h⟩ := bind_eq_ok.mp h
      split_ifs at h with hhost
      obtain rfl := Except.ok.inj h
      obtain ⟨hauthority, rfl⟩ := parseAuthority_eq_ok.mp hresult
      rw [not_or, not_or, not_or] at hbad
      rw [not_or, not_or] at hhost
      exact ⟨authority, text, rfl, hslash, ⟨htext, hbad.2.2.2⟩, hauthority, hhost.1, hhost.2.1⟩
    · rintro ⟨authority, text, h, hslash, ⟨htext, hhash⟩, hauthority, hhost, hat⟩
      obtain rfl := List.append_cancel_left h
      -- the checks before the authority is parsed follow from what it is parsed to
      have hne : authority ≠ [] := by
        obtain ⟨c, hc⟩ := List.exists_mem_of_ne_nil _ hhost
        exact List.ne_nil_of_mem (hauthority.mem_of_mem hc)
      have hpath : r.path ≠ [] := fun hnil ↦ by
        have hhead := htext.head?_eq
        rw [hnil] at hhead
        cases hhead
      rw [splitRemainder_eq.mpr ⟨text, rfl, hslash, htext⟩]
      simp only
      rw [if_neg, bind_eq_ok]
      · refine ⟨r, parseAuthority_eq_ok.mpr ⟨hauthority, rfl⟩, if_neg ?_⟩
        rw [not_or, not_or]
        exact ⟨hhost, hat, mt hauthority.mem_of_mem hslash⟩
      · rw [not_or, not_or, not_or, not_not]
        exact ⟨hne, hpath, htext.head?_eq, hhash⟩

/-! ## URLs that are well formed -/

/-- What the URL of an endpoint looks like: a host in brackets or one without a colon, a port, and a
path, with none of the delimiters in the host. -/
def WellFormed (url : Bytes) (r : HttpsEndpoint) : Prop :=
  ∃ authority portText pathText,
    url = ascii "https://" ++ (authority ++ (portText ++ pathText)) ∧
      (authority = '['.toUInt8 :: (r.host ++ [']'.toUInt8]) ∨
        authority = r.host ∧ ':'.toUInt8 ∉ r.host) ∧
      IsPortText portText r.port ∧ IsPathText pathText r.path ∧
      r.host ≠ [] ∧ (∀ c ∈ ascii "@/?#", c ∉ r.host) ∧ '#'.toUInt8 ∉ r.path

/-- The text between the scheme and the first slash. -/
def authorityOf (url : Bytes) : Bytes :=
  (url.drop (ascii "https://").length).takeWhile (· ≠ '/'.toUInt8)

/-- The text before the first slash has no query and no fragment in it, and at most one colon
outside of brackets. -/
def PlainAuthority (url : Bytes) : Prop :=
  ('?'.toUInt8 ∉ authorityOf url ∧ '#'.toUInt8 ∉ authorityOf url) ∧
    ((authorityOf url).head? = some '['.toUInt8 ∨ (authorityOf url).count ':'.toUInt8 ≤ 1)

theorem authorityOf_append (hslash : '/'.toUInt8 ∉ authority) (htext : IsPathText text path) :
    authorityOf (ascii "https://" ++ (authority ++ text)) = authority := by
  have hall : ∀ c ∈ authority, decide (c ≠ '/'.toUInt8) = true := fun c hc ↦
    decide_eq_true fun h ↦ hslash (h ▸ hc)
  rw [authorityOf, List.drop_left, List.takeWhile_append_of_pos hall]
  rcases htext with ⟨rfl, -⟩ | ⟨hhead, -⟩
  · exact List.append_nil authority
  · cases text with
    | nil => cases hhead
    | cons c text =>
      obtain rfl := Option.some.inj hhead
      exact List.append_nil authority

/-- A port is one colon and digits. -/
theorem of_mem_portText (h : IsPortText text port) (hc : c ∈ text) :
    c = ':'.toUInt8 ∨ isDigit c = true := by
  rcases h with ⟨rfl, -⟩ | ⟨digits, rfl, hport⟩
  · exact absurd hc List.not_mem_nil
  · rcases List.mem_cons.mp hc with rfl | hc
    · exact .inl rfl
    · exact .inr (hport.1.2 c hc)

theorem count_colon (h : IsPortText text port) :
    text.count ':'.toUInt8 = if text = [] then 0 else 1 := by
  rcases h with ⟨rfl, -⟩ | ⟨digits, rfl, hport⟩
  · rfl
  · rw [List.count_cons_self, List.count_eq_zero_of_not_mem (colon_notMem hport)]
    rfl

/-- A delimiter of an authority is in its host. -/
theorem mem_host_of_mem (h : IsAuthority authority host port) (hc : c ∈ authority)
    (hother : c ≠ '['.toUInt8 ∧ c ≠ ']'.toUInt8 ∧ c ≠ ':'.toUInt8 ∧ isDigit c = false) :
    c ∈ host := by
  obtain ⟨text, htext, h⟩ := h
  have hnot : c ∉ text := fun hmem ↦ by
    rcases of_mem_portText htext hmem with rfl | hdigit
    · exact hother.2.2.1 rfl
    · rw [hother.2.2.2] at hdigit
      cases hdigit
  rcases h with ⟨rfl, -⟩ | ⟨rfl, -⟩
  · simp only [List.mem_cons, List.mem_append] at hc
    tauto
  · exact (List.mem_append.mp hc).resolve_right hnot

/-- Without brackets, a URL that is well formed has no colon in its host. -/
theorem WellFormed.colon_notMem (h : WellFormed url r)
    (hbracket : (url.drop (ascii "https://").length).head? ≠ some '['.toUInt8) :
    ':'.toUInt8 ∉ r.host := by
  obtain ⟨authority, portText, pathText, rfl, rfl | ⟨-, hcolon⟩, -⟩ := h
  · rw [List.drop_left] at hbracket
    exact absurd rfl hbracket
  · exact hcolon

theorem WellFormed.notMem_host (h : WellFormed url r) : ∀ c ∈ ascii "@/?#", c ∉ r.host := by
  obtain ⟨-, -, -, -, -, -, -, -, hnone, -⟩ := h
  exact hnone

/-- **The accepted URLs that are well formed.** -/
theorem wellFormed_iff (h : parseHttpsEndpoint url = .ok r) :
    WellFormed url r ↔ PlainAuthority url := by
  obtain ⟨authority, text, rfl, hslash, ⟨htext, hhash⟩, hauthority, hhost, hat⟩ :=
    parseHttpsEndpoint_eq_ok.mp h
  rw [PlainAuthority, authorityOf_append hslash htext]
  constructor
  · intro hformed
    have hnone := hformed.notMem_host
    refine ⟨⟨fun hc ↦ ?_, fun hc ↦ ?_⟩, ?_⟩
    · exact hnone '?'.toUInt8 (by decide) (mem_host_of_mem hauthority hc (by decide))
    · exact hnone '#'.toUInt8 (by decide) (mem_host_of_mem hauthority hc (by decide))
    · obtain ⟨portText, hport, ⟨rfl, -⟩ | ⟨rfl, hbracket, -⟩⟩ := hauthority
      · exact .inl rfl
      · have hcolon : ':'.toUInt8 ∉ r.host := by
          refine hformed.colon_notMem ?_
          rw [List.drop_left, List.head?_append_of_ne_nil _
            (List.append_ne_nil_of_left_ne_nil hhost _)]
          exact hbracket
        right
        rw [List.count_append, List.count_eq_zero_of_not_mem hcolon, count_colon hport]
        split_ifs <;> decide
  · rintro ⟨⟨hquery, hfragment⟩, hcolons⟩
    have hnone : ∀ c ∈ ascii "@/?#", c ∉ r.host := by
      intro c hc hmem
      have hchars : c = '@'.toUInt8 ∨ c = '/'.toUInt8 ∨ c = '?'.toUInt8 ∨ c = '#'.toUInt8 := by
        simpa [ascii] using hc
      rcases hchars with rfl | rfl | rfl | rfl
      · exact hat hmem
      · exact hslash (hauthority.mem_of_mem hmem)
      · exact hquery (hauthority.mem_of_mem hmem)
      · exact hfragment (hauthority.mem_of_mem hmem)
    -- the only colon, if there is one, is that of the port
    obtain ⟨portText, hport, ⟨rfl, -⟩ | ⟨rfl, hbracket, hcolon⟩⟩ := hauthority
    · refine ⟨_, portText, text, ?_, .inl rfl, hport, htext, hhost, hnone, hhash⟩
      simp
    · refine ⟨r.host, portText, text, ?_, .inr ⟨rfl, ?_⟩, hport, htext, hhost, hnone, hhash⟩
      · rw [List.append_assoc]
      · have hcount := hcolons.resolve_left hbracket
        rw [List.count_append, count_colon hport] at hcount
        by_cases hnil : portText = []
        · exact hcolon hnil
        · rw [if_neg hnil] at hcount
          exact List.count_eq_zero.mp (by omega)

/-- An address in brackets, with a port and a path. -/
theorem wellFormed_iff_brackets : WellFormed (ascii "https://[::1]:9443/resolve")
    ⟨ascii "::1", 9443, ascii "/resolve"⟩ := by
  have hparse : parseHttpsEndpoint (ascii "https://[::1]:9443/resolve")
      = .ok ⟨ascii "::1", 9443, ascii "/resolve"⟩ := by decide
  exact (wellFormed_iff hparse).mpr ⟨by decide, by decide⟩

/-- Without brackets the end of an address is taken for a port, and a query for a part of the
host. -/
theorem not_wellFormed_absorbed :
    (parseHttpsEndpoint (ascii "https://::1") = .ok ⟨ascii ":", 1, ascii "/"⟩ ∧
      ¬WellFormed (ascii "https://::1") ⟨ascii ":", 1, ascii "/"⟩) ∧
    parseHttpsEndpoint (ascii "https://h?x") = .ok ⟨ascii "h?x", 443, ascii "/"⟩ ∧
      ¬WellFormed (ascii "https://h?x") ⟨ascii "h?x", 443, ascii "/"⟩ := by
  refine ⟨⟨by decide, fun h ↦ ?_⟩, by decide, fun h ↦ ?_⟩
  · exact h.colon_notMem (by decide) (by decide)
  · exact h.notMem_host '?'.toUInt8 (by decide) (by decide)

end MoSidecar
