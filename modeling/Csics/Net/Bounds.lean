import Csics.Net.Grammar

/-!
# What `URI::from` reads

The loop of `from` ends when the cursor meets the end of the string, and two places lead past it:
the steps over the first `:` and three bytes more, and the views. A string without `:` gets a host
that starts three bytes behind its end, with the difference of the pointers wrapped to a huge size,
and a path is one byte too long.

`bounded_iff` finds the strings where everything that is read or returned lies within them.
-/

namespace Csics.Net

open Base

/-- The bytes of a view lie in a string of `n` bytes. -/
def StringView.Within (v : StringView) (n : Nat) : Prop := v.size = 0 ∨ v.data + v.size ≤ n

/-- The views of a URI lie in a string of `n` bytes. -/
structure URI.Within (u : URI) (n : Nat) : Prop where
  scheme : u.scheme.Within n
  host : u.host.Within n
  path : u.path.Within n

/-- `from` ends without a read behind the string, and its views lie in the string. An exception of
`std::stoi` ends it as well, without views. -/
def Bounded (s : List UInt8) : Prop :=
  URI.fromView s ≠ .error .outOfBounds ∧
    ∀ u, URI.fromView s = .ok (some u) → u.Within s.length

/-- Behind the first `:` and three bytes more there is no path, or a port in front of it that
`std::stoi` does not take. -/
def NoPathRead (s : List UInt8) : Prop :=
  ∃ scheme c1 c2 first host port path, s = splitText scheme c1 c2 first host port path ∧
    Free (fun c => c = colon) scheme ∧ Free (fun c => c = colon ∨ c = slash) host ∧
    (∀ ds, port = some ds → Free (fun c => c = slash) ds) ∧
    (path = none ∨ ∃ fault, portOf port = .error fault)

/-! ## Texts with three bytes behind the first `:` -/

/-- `std::stoi` reads nothing behind the bytes it is given. -/
theorem stoi_ne_outOfBounds (s : List UInt8) : stoi s ≠ .error .outOfBounds := by
  unfold stoi
  dsimp only
  split
  · intro h
    cases h
  · split
    · intro h
      cases h
    · intro h
      cases h

theorem portOf_ne_outOfBounds (port : Option (List UInt8)) :
    portOf port ≠ .error .outOfBounds := by
  cases port with
  | none =>
    intro h
    cases h
  | some ds =>
    have hstoi := stoi_ne_outOfBounds ds
    show (stoi ds).map _ ≠ _
    cases h : stoi ds with
    | error fault =>
      rw [h] at hstoi
      intro hfault
      cases hfault
      exact hstoi rfl
    | ok v =>
      intro h
      cases h

section
variable {scheme host : List UInt8} {c1 c2 first : UInt8} {port path : Option (List UInt8)}
  (hscheme : Free (fun c => c = colon) scheme)
  (hhost : Free (fun c => c = colon ∨ c = slash) host)
  (hport : ∀ ds, port = some ds → Free (fun c => c = slash) ds)

include hscheme hhost hport

/-- Only the view of a path leaves the string. -/
theorem bounded_splitText_iff :
    Bounded (splitText scheme c1 c2 first host port path) ↔
      path = none ∨ ∃ fault, portOf port = .error fault := by
  have hfrom := fromView_splitText scheme c1 c2 first host port path hscheme hhost hport
  have hlen := length_splitText scheme c1 c2 first host port path
  unfold Bounded
  rw [hfrom]
  cases hp : portOf port with
  | error fault =>
    refine ⟨fun _ => Or.inr ⟨fault, rfl⟩, fun _ => ⟨?_, ?_⟩⟩
    · intro h
      cases h
      exact portOf_ne_outOfBounds port hp
    · intro u hu
      cases hu
  | ok p =>
    constructor
    · rintro ⟨-, hviews⟩
      refine Or.inl ?_
      by_contra hpath
      obtain ⟨q, rfl⟩ := Option.ne_none_iff_exists'.mp hpath
      have hp0 : port = none → p = 0 := by
        rintro rfl
        exact (Except.ok.inj hp).symm
      obtain ⟨hpos, hend⟩ := pathView_of_some scheme c1 c2 first host port q p hp0
      rcases (hviews _ rfl).path with hzero | hle
      · exact absurd hzero (Nat.ne_of_gt hpos)
      · dsimp only at hle
        omega
    · rintro (rfl | ⟨fault, hfault⟩)
      · refine ⟨(fun h => by cases h), ?_⟩
        intro u hu
        cases hu
        refine ⟨Or.inr ?_, Or.inr ?_, Or.inl ?_⟩
        · dsimp only
          omega
        · dsimp only
          omega
        · rw [pathView_of_none]
      · cases hfault

end

/-! ## The other texts -/

/-- Without `:` the view of the host starts behind the end. -/
theorem not_bounded_of_free {s : List UInt8} (h : Free (fun c => c = colon) s) : ¬ Bounded s := by
  rintro ⟨-, hviews⟩
  have hquiet : Free (Acts .scheme) s := h
  have hport : readPort s ⟨.scheme, s.length, s.length, s.length⟩ = .ok 0 := by
    rw [readPort, if_neg (by simp)]
  have hfrom : URI.fromView s = .ok (some
      { uri := s
        scheme := ⟨0, pointerDiff s.length 0⟩
        host := ⟨s.length + 3, pointerDiff s.length (s.length + 3)⟩
        path := ⟨0, 0⟩
        port := 0 }) := by
    rw [URI.fromView, scan_of_free hquiet]
    show (readPort s _).map _ = _
    rw [hport]
    rfl
  -- the difference of the pointers wraps
  have hsize : pointerDiff s.length (s.length + 3) = 2 ^ 64 - 3 := by
    rw [pointerDiff, if_neg (by omega)]
    omega
  rcases (hviews _ hfrom).host with hzero | hle
  · rw [hsize] at hzero
    cases hzero
  · dsimp only at hle
    omega

theorem not_bounded_of_outOfBounds {s : List UInt8}
    (h : URI.fromView s = .error .outOfBounds) : ¬ Bounded s :=
  fun hbounded => hbounded.1 h

/-! ## The strings where `from` stays within -/

/-- `from` stays within the strings where no path is read behind the first `:` and three bytes
more. -/
theorem bounded_iff (s : List UInt8) : Bounded s ↔ NoPathRead s := by
  constructor
  · intro hbounded
    obtain ⟨scheme, tail, rfl, hscheme, htail⟩ := exists_field (fun c : UInt8 => c = colon) s
    cases tail with
    | nil =>
      rw [List.append_nil] at hbounded
      exact absurd hbounded (not_bounded_of_free hscheme)
    | cons c rest =>
      obtain rfl := htail c rest rfl
      match rest, hbounded with
      | [], hbounded | [_], hbounded | [_, _], hbounded =>
        exact absurd hbounded (not_bounded_of_outOfBounds (fromView_of_short hscheme (by simp)))
      | c1 :: c2 :: first :: rest, hbounded =>
        obtain ⟨host, port, path, htext, hhost, hport⟩ := exists_splitText scheme c1 c2 first rest
        rw [htext] at hbounded ⊢
        have hpath := (bounded_splitText_iff hscheme hhost hport).mp hbounded
        exact ⟨scheme, c1, c2, first, host, port, path, rfl, hscheme, hhost, hport, hpath⟩
  · rintro ⟨scheme, c1, c2, first, host, port, path, rfl, hscheme, hhost, hport, hpath⟩
    exact (bounded_splitText_iff hscheme hhost hport).mpr hpath

/-- `a://h/b`: the view of the path is two bytes long, and one byte of it is in the string. -/
theorem not_bounded_path : ¬ Bounded [0x61, 0x3A, 0x2F, 0x2F, 0x68, 0x2F, 0x62] := by
  rintro ⟨-, hviews⟩
  have hwithin : URI.Within ⟨[0x61, 0x3A, 0x2F, 0x2F, 0x68, 0x2F, 0x62], ⟨0, 1⟩, ⟨4, 1⟩, ⟨6, 2⟩, 0⟩
      7 := hviews _ rfl
  rcases hwithin.path with hzero | hle
  · cases hzero
  · simp at hle

end Csics.Net
