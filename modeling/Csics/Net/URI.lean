import Csics.Base.Delimited

/-!
# URIs

`URI::from` of `include/csics/io/net/NetTypes.hpp`: a scanner of four states that goes over
`scheme://host[:port][/path]` once and remembers where the parts end.

Pointers are offsets from `uri.begin()`. A read behind the end of the string has no result: the loop
stops at `uri.end()` only when the cursor meets it exactly.

The bytes behind the first `:` are not looked at. `operator!=` of a `StringView` is written where no
`operator==` of two views is declared, and compares what `operator bool` says of them.
-/

namespace Csics.Net

open Base

/-- Why `from` has no result: a read behind the end of the string, or an exception of
`std::stoi`. -/
inductive Fault where
  | outOfBounds
  | invalidArgument
  | outOfRange
  deriving DecidableEq, Repr

/-- `:`. -/
def colon : UInt8 := 0x3A

/-- `/`. -/
def slash : UInt8 := 0x2F

/-! ## The code -/

/-- `isspace` in the `C` locale. -/
def isSpace (c : UInt8) : Bool := c = 0x20 ∨ (0x09 ≤ c ∧ c ≤ 0x0D)

/-- The sign in front of a number and what follows it. -/
def readSign : List UInt8 → Int × List UInt8
  | c :: rest => if c = 0x2D then (-1, rest) else if c = 0x2B then (1, rest) else (1, c :: rest)
  | [] => (1, [])

/-- `std::stoi`: white space, a sign, digits, and anything behind them. -/
def stoi (s : List UInt8) : Except Fault Int :=
  let (sign, rest) := readSign (s.dropWhile isSpace)
  let digits := rest.takeWhile (IsDigit ·)
  if digits = [] then .error .invalidArgument
  else
    let value := sign * decimal digits
    if -2 ^ 31 ≤ value ∧ value < 2 ^ 31 then .ok value else .error .outOfRange

/-- A default `StringView` is `⟨0, 0⟩`. -/
structure StringView where
  data : Nat
  size : Nat
  deriving DecidableEq, Repr

/-- `operator bool`. A view that has a size has a pointer, too. -/
def StringView.toBool (v : StringView) : Bool := 0 < v.size

/-- `operator!=`, with the only `==` that its body finds. -/
def StringView.ne (a b : StringView) : Bool := !(a.toBool == b.toBool)

structure URI where
  uri : List UInt8
  scheme : StringView
  host : StringView
  path : StringView
  port : UInt16
  deriving DecidableEq, Repr

/-- `state`. -/
inductive State where
  | scheme
  | host
  | port
  | path
  deriving DecidableEq, Repr

/-- The variables of `from` that the loop changes, but for the cursor. -/
structure Scan where
  state : State
  schemeEnd : Nat
  hostEnd : Nat
  portEnd : Nat
  deriving DecidableEq, Repr

/-- The loop of `from`, with the cursor at `pos` and the bytes from there on. `none` is the
early `return std::nullopt`. -/
def scan (pos : Nat) (st : Scan) : List UInt8 → Except Fault (Option Scan)
  | [] => .ok (some st)
  | c :: rest =>
    match st.state with
    | .scheme =>
      if c = colon then
        -- the view of three bytes at the cursor, and that of `"://"`
        if StringView.ne ⟨pos, 3⟩ ⟨0, 3⟩ then .ok none
        else
          -- `cursor += 3`, and `cursor++` at the end of the turn steps over one more byte
          match rest with
          | _ :: _ :: _ :: rest => scan (pos + 4) { st with schemeEnd := pos, state := .host } rest
          | _ => .error .outOfBounds
      else scan (pos + 1) st rest
    | .host =>
      if c = colon then scan (pos + 1) { st with hostEnd := pos, state := .port } rest
      else if c = slash then scan (pos + 1) { st with hostEnd := pos, state := .path } rest
      else scan (pos + 1) st rest
    | .port =>
      if c = slash then scan (pos + 1) { st with portEnd := pos, state := .path } rest
      else scan (pos + 1) st rest
    | .path => scan (pos + 1) st rest

/-- The difference of two pointers as a `size_t`. -/
def pointerDiff (a b : Nat) : Nat := if b ≤ a then a - b else a + 2 ^ 64 - b

/-- `result.port_`. -/
def readPort (s : List UInt8) (st : Scan) : Except Fault UInt16 :=
  if st.portEnd ≠ s.length ∨ st.state = .port then
    (stoi ((s.take st.portEnd).drop (st.hostEnd + 1))).map fun v =>
      UInt16.ofNat (v % 2 ^ 16).toNat
  else .ok 0

/-- `result.path_`. -/
def pathView (n : Nat) (st : Scan) (port : UInt16) : StringView :=
  if st.state = .path then
    if port ≠ 0 then ⟨st.portEnd + 1, pointerDiff n st.portEnd⟩
    else ⟨st.hostEnd + 1, pointerDiff n st.hostEnd⟩
  else ⟨0, 0⟩

/-- `URI::from`. -/
def URI.fromView (s : List UInt8) : Except Fault (Option URI) :=
  (scan 0 ⟨.scheme, s.length, s.length, s.length⟩ s).bind fun
    | none => .ok none
    | some st =>
      (readPort s st).map fun port => some
        { uri := s
          scheme := ⟨0, pointerDiff st.schemeEnd 0⟩
          host := ⟨st.schemeEnd + 3, pointerDiff st.hostEnd (st.schemeEnd + 3)⟩
          path := pathView s.length st port
          port := port }

example : URI.fromView [0x61, 0x3A, 0x2F, 0x2F, 0x68, 0x3A, 0x38, 0x30] =
    .ok (some ⟨[0x61, 0x3A, 0x2F, 0x2F, 0x68, 0x3A, 0x38, 0x30], ⟨0, 1⟩, ⟨4, 1⟩, ⟨0, 0⟩, 80⟩) := by
  rfl

/-! ## What the scanner finds -/

/-- The bytes on which the loop does something in a state. -/
def Acts : State → UInt8 → Prop
  | .scheme, c => c = colon
  | .host, c => c = colon ∨ c = slash
  | .port, c => c = slash
  | .path, _ => False

/-- An optional part of a URI with the byte in front of it. -/
def prefixed (c : UInt8) : Option (List UInt8) → List UInt8
  | none => []
  | some part => c :: part

theorem scan_cons_of_quiet {pos : Nat} {st : Scan} {c : UInt8} {rest : List UInt8}
    (h : ¬ Acts st.state c) : scan pos st (c :: rest) = scan (pos + 1) st rest := by
  obtain ⟨state, schemeEnd, hostEnd, portEnd⟩ := st
  cases state with
  | scheme =>
    have hc : c ≠ colon := h
    rw [scan.eq_def]
    simp only [hc, if_false]
  | host =>
    have hc : ¬ (c = colon ∨ c = slash) := h
    rw [not_or] at hc
    rw [scan.eq_def]
    simp only [hc.1, hc.2, if_false]
  | port =>
    have hc : c ≠ slash := h
    rw [scan.eq_def]
    simp only [hc, if_false]
  | path => rw [scan.eq_def]

/-- The scanner runs over a part up to the byte that ends it. -/
theorem scan_append {pos : Nat} {st : Scan} {xs rest : List UInt8}
    (h : Free (Acts st.state) xs) :
    scan pos st (xs ++ rest) = scan (pos + xs.length) st rest := by
  induction xs generalizing pos with
  | nil => rfl
  | cons c xs ih =>
    rw [List.cons_append, scan_cons_of_quiet (h c List.mem_cons_self), ih h.tail,
      List.length_cons, Nat.add_assoc, Nat.add_comm 1]

theorem scan_of_free {pos : Nat} {st : Scan} {xs : List UInt8} (h : Free (Acts st.state) xs) :
    scan pos st xs = .ok (some st) := by
  have hscan : scan pos st (xs ++ []) = .ok (some st) := scan_append h
  rwa [List.append_nil] at hscan

/-- The ends of the parts behind the scheme, for a host at `pos`. -/
def scanned (pos : Nat) (st : Scan) (host : List UInt8) :
    Option (List UInt8) → Option (List UInt8) → Scan
  | none, none => st
  | none, some _ => { st with state := .path, hostEnd := pos + host.length }
  | some _, none => { st with state := .port, hostEnd := pos + host.length }
  | some port, some _ =>
    { st with
      state := .path
      hostEnd := pos + host.length
      portEnd := pos + host.length + 1 + port.length }

theorem scan_authority {pos : Nat} {st : Scan} {host : List UInt8}
    {port path : Option (List UInt8)} (hst : st.state = .host)
    (hhost : Free (fun c => c = colon ∨ c = slash) host)
    (hport : ∀ ds, port = some ds → Free (fun c => c = slash) ds) :
    scan pos st (host ++ (prefixed colon port ++ prefixed slash path)) =
      .ok (some (scanned pos st host port path)) := by
  obtain ⟨state, schemeEnd, hostEnd, portEnd⟩ := st
  subst hst
  have hquiet : Free (Acts .host) host := hhost
  rw [scan_append hquiet]
  cases port with
  | none =>
    cases path with
    | none => rfl
    | some q =>
      show scan _ _ (slash :: q) = _
      simp only [scan, scanned]
      exact scan_of_free fun c _ => not_false
  | some ds =>
    have hds : Free (Acts .port) ds := hport ds rfl
    show scan _ _ (colon :: (ds ++ prefixed slash path)) = _
    simp only [scan]
    rw [if_pos trivial, scan_append hds]
    cases path with
    | none => rfl
    | some q =>
      show scan _ _ (slash :: q) = _
      simp only [scan, scanned]
      exact scan_of_free fun c _ => not_false

/-- The comparison with `"://"` never tells views of three bytes apart. -/
theorem ne_three (a b : Nat) : StringView.ne ⟨a, 3⟩ ⟨b, 3⟩ = false := rfl

/-- From the start over the first `:` and the three bytes behind it. -/
theorem scan_scheme {pos : Nat} {st : Scan} {scheme rest : List UInt8} {c1 c2 first : UInt8}
    (hst : st.state = .scheme) (hscheme : Free (fun c => c = colon) scheme) :
    scan pos st (scheme ++ colon :: c1 :: c2 :: first :: rest) =
      scan (pos + scheme.length + 4)
        { st with state := .host, schemeEnd := pos + scheme.length } rest := by
  obtain ⟨state, schemeEnd, hostEnd, portEnd⟩ := st
  subst hst
  have hquiet : Free (Acts .scheme) scheme := hscheme
  rw [scan_append hquiet, scan.eq_def]
  simp [ne_three]

/-- The text of a URI with three bytes behind the first `:` that the scanner does not look at. The
host begins with the last of them. -/
def splitText (scheme : List UInt8) (c1 c2 first : UInt8) (host : List UInt8)
    (port path : Option (List UInt8)) : List UInt8 :=
  scheme ++ colon :: c1 :: c2 :: first :: (host ++ (prefixed colon port ++ prefixed slash path))

theorem length_splitText (scheme : List UInt8) (c1 c2 first : UInt8) (host : List UInt8)
    (port path : Option (List UInt8)) :
    (splitText scheme c1 c2 first host port path).length = scheme.length + 4 + host.length +
      ((prefixed colon port).length + (prefixed slash path).length) := by
  simp only [splitText, List.length_append, List.length_cons]
  omega

/-- The port that `from` makes of the bytes behind the second `:`. -/
def portOf : Option (List UInt8) → Except Fault UInt16
  | none => .ok 0
  | some ds => (stoi ds).map fun v => UInt16.ofNat (v % 2 ^ 16).toNat

theorem pointerDiff_of_le {a b : Nat} (h : b ≤ a) : pointerDiff a b = a - b := if_pos h

/-- The view of what follows the byte at `x`, with the size counted from that byte. -/
theorem view_past_end {x n : Nat} (h : x < n) :
    0 < pointerDiff n x ∧ x + 1 + pointerDiff n x = n + 1 := by
  rw [pointerDiff_of_le (Nat.le_of_lt h)]
  omega

section
variable (scheme : List UInt8) (c1 c2 first : UInt8) (host : List UInt8)
  (port path : Option (List UInt8))

/-- The variables of `from` after the loop. -/
def finalScan : Scan :=
  scanned (scheme.length + 4)
    ⟨.host, scheme.length, (splitText scheme c1 c2 first host port path).length,
      (splitText scheme c1 c2 first host port path).length⟩ host port path

theorem schemeEnd_finalScan :
    (finalScan scheme c1 c2 first host port path).schemeEnd = scheme.length := by
  cases port <;> cases path <;> rfl

theorem hostEnd_finalScan :
    (finalScan scheme c1 c2 first host port path).hostEnd = scheme.length + 4 + host.length := by
  have hlen := length_splitText scheme c1 c2 first host port path
  cases port with
  | none =>
    cases path with
    | none => simpa [finalScan, scanned, prefixed] using hlen
    | some q => rfl
  | some ds => cases path <;> rfl

theorem readPort_finalScan :
    readPort (splitText scheme c1 c2 first host port path)
      (finalScan scheme c1 c2 first host port path) = portOf port := by
  cases port with
  | none =>
    cases path with
    | none => simp [readPort, finalScan, scanned, portOf]
    | some q => simp [readPort, finalScan, scanned, portOf]
  | some ds =>
    -- the digits stand between the end of the host and the end of the port
    have hdigits : ((splitText scheme c1 c2 first host (some ds) path).take
        (scheme.length + 4 + host.length + 1 + ds.length)).drop
          (scheme.length + 4 + host.length + 1) = ds := by
      have htext : splitText scheme c1 c2 first host (some ds) path =
          (scheme ++ colon :: c1 :: c2 :: first :: (host ++ [colon])) ++
            (ds ++ prefixed slash path) := by
        simp [splitText, prefixed]
      have hlen : scheme.length + 4 + host.length + 1 =
          (scheme ++ colon :: c1 :: c2 :: first :: (host ++ [colon])).length := by
        simp only [List.length_append, List.length_cons, List.length_nil]
        omega
      rw [htext, hlen, ← List.length_append, ← List.append_assoc, List.take_left,
        List.drop_left]
    have hlen := length_splitText scheme c1 c2 first host (some ds) path
    simp only [prefixed, List.length_cons] at hlen
    cases path with
    | none =>
      have hend : (splitText scheme c1 c2 first host (some ds) none).length =
          scheme.length + 4 + host.length + 1 + ds.length := by
        simp only [List.length_nil] at hlen
        omega
      rw [readPort, if_pos (.inr rfl)]
      show (stoi (List.drop (scheme.length + 4 + host.length + 1)
        (List.take (splitText scheme c1 c2 first host (some ds) none).length _))).map _ = _
      rw [hend, hdigits, portOf]
    | some q =>
      have hend : (finalScan scheme c1 c2 first host (some ds) (some q)).portEnd ≠
          (splitText scheme c1 c2 first host (some ds) (some q)).length := by
        simp only [List.length_cons] at hlen
        simp only [finalScan, scanned]
        omega
      rw [readPort, if_pos (.inl hend)]
      show (stoi (List.drop (scheme.length + 4 + host.length + 1)
        (List.take (scheme.length + 4 + host.length + 1 + ds.length) _))).map _ = _
      rw [hdigits, portOf]

theorem pathView_of_none (p : UInt16) :
    pathView (splitText scheme c1 c2 first host port none).length
      (finalScan scheme c1 c2 first host port none) p = ⟨0, 0⟩ := by
  cases port <;> rfl

/-- The view of the path reaches one byte past the end of the string. -/
theorem pathView_of_some (q : List UInt8) (p : UInt16) (hp : port = none → p = 0) :
    let view := pathView (splitText scheme c1 c2 first host port (some q)).length
      (finalScan scheme c1 c2 first host port (some q)) p
    0 < view.size ∧
      view.data + view.size = (splitText scheme c1 c2 first host port (some q)).length + 1 := by
  have hlen := length_splitText scheme c1 c2 first host port (some q)
  cases port with
  | none =>
    simp only [prefixed, List.length_cons, List.length_nil] at hlen
    have hend : scheme.length + 4 + host.length <
        (splitText scheme c1 c2 first host none (some q)).length := by omega
    obtain rfl := hp rfl
    exact view_past_end hend
  | some ds =>
    simp only [prefixed, List.length_cons] at hlen
    have hport : scheme.length + 4 + host.length + 1 + ds.length <
        (splitText scheme c1 c2 first host (some ds) (some q)).length := by omega
    have hhost : scheme.length + 4 + host.length <
        (splitText scheme c1 c2 first host (some ds) (some q)).length := by omega
    by_cases hp0 : p ≠ 0
    · simp only [pathView, finalScan, scanned, if_true, if_pos hp0]
      exact view_past_end hport
    · simp only [pathView, finalScan, scanned, if_true, if_neg hp0]
      exact view_past_end hhost

/-- The result of `from` behind the first `:` and three bytes more. -/
theorem fromView_splitText (hscheme : Free (fun c => c = colon) scheme)
    (hhost : Free (fun c => c = colon ∨ c = slash) host)
    (hport : ∀ ds, port = some ds → Free (fun c => c = slash) ds) :
    URI.fromView (splitText scheme c1 c2 first host port path) =
      (portOf port).map fun p => some
        { uri := splitText scheme c1 c2 first host port path
          scheme := ⟨0, scheme.length⟩
          host := ⟨scheme.length + 3, 1 + host.length⟩
          path := pathView (splitText scheme c1 c2 first host port path).length
            (finalScan scheme c1 c2 first host port path) p
          port := p } := by
  have hscan : scan 0 ⟨.scheme, (splitText scheme c1 c2 first host port path).length,
      (splitText scheme c1 c2 first host port path).length,
      (splitText scheme c1 c2 first host port path).length⟩
      (splitText scheme c1 c2 first host port path) =
      .ok (some (finalScan scheme c1 c2 first host port path)) := by
    rw [splitText, scan_scheme rfl hscheme, Nat.zero_add]
    exact scan_authority rfl hhost hport
  have hdiff : pointerDiff (scheme.length + 4 + host.length) (scheme.length + 3) =
      1 + host.length := by
    rw [pointerDiff_of_le (by omega)]
    omega
  have hzero : pointerDiff scheme.length 0 = scheme.length := pointerDiff_of_le (Nat.zero_le _)
  rw [URI.fromView, hscan]
  show (readPort _ _).map _ = _
  rw [readPort_finalScan, schemeEnd_finalScan, hostEnd_finalScan, hdiff, hzero]

end

end Csics.Net
