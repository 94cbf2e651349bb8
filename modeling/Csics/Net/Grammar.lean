import Csics.Net.URI
import Mathlib.Data.List.TakeWhile

/-!
# The grammar of URIs

`Form` is the grammar that the comment of `URI::from` gives, with the parts of a text that
has it; no text has two forms (`Form.text_injective`). `Exact s` says that `from` does on
`s` what the grammar asks for.

`exact_iff` finds the texts where that holds: the forms that have a host and no path. Behind `://`
the scanner steps over one byte too many, so that an empty host is not seen; the view of a path is
one byte too long; and no text at all is rejected (`fromView_ne_none`), neither one without `:` or
`//` nor a port that is no number.
-/

namespace Csics.Net

open Base

/-- A text `scheme://host[:port][/path]`. -/
@[ext] structure Form where
  scheme : List UInt8
  host : List UInt8
  port : Option (List UInt8)
  path : Option (List UInt8)
  scheme_free : Free (fun c => c = colon) scheme
  host_free : Free (fun c => c = colon ∨ c = slash) host
  port_decimal : ∀ ds, port = some ds → ds ≠ [] ∧ (∀ d ∈ ds, IsDigit d) ∧ decimal ds ≤ 65535

namespace Form

def text (f : Form) : List UInt8 :=
  f.scheme ++ colon :: slash :: slash ::
    (f.host ++ (prefixed colon f.port ++ prefixed slash f.path))

/-- The port, `0` when the text has none. -/
def portNumber (f : Form) : Nat := (f.port.map decimal).getD 0

end Form

/-- The bytes of a view, when they lie in the string. -/
def content (s : List UInt8) (v : StringView) : Option (List UInt8) :=
  if v.size = 0 then some []
  else if v.data + v.size ≤ s.length then some ((s.drop v.data).take v.size) else none

/-- The parts of a result are those of the text. -/
structure Form.Describes (f : Form) (u : URI) : Prop where
  scheme : content f.text u.scheme = some f.scheme
  host : content f.text u.host = some f.host
  port : u.port.toNat = f.portNumber
  path : content f.text u.path = some (f.path.getD [])

/-- `from` accepts `s` with the parts it has, and answers `nullopt` when `s` has no form. -/
def Exact (s : List UInt8) : Prop :=
  (∀ f : Form, f.text = s → ∃ u, URI.fromView s = .ok (some u) ∧ f.Describes u) ∧
    ((∀ f : Form, f.text ≠ s) → URI.fromView s = .ok none)

/-- A form with a host and without a path. -/
def HostOnly (s : List UInt8) : Prop := ∃ f : Form, f.text = s ∧ f.host ≠ [] ∧ f.path = none

/-! ## Forms -/

theorem stops_prefixed {stop : UInt8 → Prop} {c : UInt8} (h : stop c)
    (part : Option (List UInt8)) : Stops stop (prefixed c part) := by
  cases part with
  | none => exact stops_nil
  | some part => exact stops_cons h

theorem prefixed_injective {c : UInt8} {p q : Option (List UInt8)}
    (h : prefixed c p = prefixed c q) : p = q := by
  cases p with
  | none =>
    cases q with
    | none => rfl
    | some q => cases h
  | some p =>
    cases q with
    | none => cases h
    | some q => exact congrArg some (List.cons.inj h).2

/-- A port is not taken for a path. -/
theorem port_ne_path (rest : List UInt8) (path : Option (List UInt8)) :
    colon :: rest ≠ prefixed slash path := by
  intro h
  cases path with
  | none => cases h
  | some q => exact absurd (List.cons.inj h).1 (by decide)

theorem digit_ne_slash {d : UInt8} (h : IsDigit d) : d ≠ slash := by
  rintro rfl
  exact absurd h (by decide)

namespace Form

theorem port_free (f : Form) : ∀ ds, f.port = some ds → Free (fun c => c = slash) ds :=
  fun ds hds d hd => digit_ne_slash ((f.port_decimal ds hds).2.1 d hd)

theorem stops_rest (f : Form) : Stops (fun c => c = colon ∨ c = slash)
    (prefixed colon f.port ++ prefixed slash f.path) := by
  cases f.port with
  | none => exact stops_prefixed (.inr rfl) f.path
  | some ds => exact stops_cons (.inl rfl)

/-- No text has two forms. -/
theorem text_injective {f g : Form} (h : f.text = g.text) : f = g := by
  obtain ⟨hscheme, hrest⟩ := field_unique h f.scheme_free g.scheme_free (stops_cons rfl)
    (stops_cons rfl)
  simp only [List.cons.injEq, true_and] at hrest
  obtain ⟨hhost, htail⟩ := field_unique hrest f.host_free g.host_free f.stops_rest g.stops_rest
  have hparts : f.port = g.port ∧ f.path = g.path := by
    cases hf : f.port with
    | none =>
      cases hg : g.port with
      | none =>
        rw [hf, hg] at htail
        exact ⟨rfl, prefixed_injective htail⟩
      | some ds =>
        rw [hf, hg] at htail
        exact absurd htail.symm (port_ne_path _ f.path)
    | some ds =>
      cases hg : g.port with
      | none =>
        rw [hf, hg] at htail
        exact absurd htail (port_ne_path _ g.path)
      | some es =>
        rw [hf, hg] at htail
        obtain ⟨rfl, hpath⟩ := field_unique (List.cons.inj htail).2 (f.port_free ds hf)
          (g.port_free es hg) (stops_prefixed (by rfl) f.path)
          (stops_prefixed (by rfl) g.path)
        exact ⟨rfl, prefixed_injective hpath⟩
  exact Form.ext hscheme hhost hparts.1 hparts.2

/-- A form with a host is a text the scanner goes through. -/
theorem text_eq_splitText (f : Form) {first : UInt8} {host : List UInt8}
    (h : f.host = first :: host) :
    f.text = splitText f.scheme slash slash first host f.port f.path := by
  rw [text, h]
  rfl

end Form

/-! ## Ports -/

theorem digit_not_space {d : UInt8} (h : IsDigit d) : isSpace d = false := by
  have h1 : 0x30 ≤ d.toNat := h.1
  have hspace : d ≠ 0x20 := by
    rintro rfl
    exact absurd h1 (by decide)
  have hcontrol : ¬ d ≤ 0x0D := by
    intro hle
    have h2 : d.toNat ≤ 0x0D := hle
    omega
  simp [isSpace, hspace, hcontrol]

theorem readSign_of_digit {d : UInt8} {ds : List UInt8} (h : IsDigit d) :
    readSign (d :: ds) = (1, d :: ds) := by
  have hminus : d ≠ 0x2D := by
    rintro rfl
    exact absurd h (by decide)
  have hplus : d ≠ 0x2B := by
    rintro rfl
    exact absurd h (by decide)
  rw [readSign, if_neg hminus, if_neg hplus]

/-- `stoi` reads a decimal number. -/
theorem stoi_of_digits {ds : List UInt8} (hne : ds ≠ []) (hdigits : ∀ d ∈ ds, IsDigit d)
    (hlt : decimal ds < 2 ^ 31) : stoi ds = .ok (decimal ds) := by
  obtain ⟨d, rest, rfl⟩ := List.exists_cons_of_ne_nil hne
  have hd := hdigits d List.mem_cons_self
  have htake : (d :: rest).takeWhile (IsDigit ·) = d :: rest := by
    rw [List.takeWhile_eq_self_iff]
    intro x hx
    exact decide_eq_true (hdigits x hx)
  rw [stoi, List.dropWhile_cons_of_neg (by simp [digit_not_space hd]), readSign_of_digit hd]
  simp only [htake, reduceCtorEq, if_false, one_mul]
  rw [if_pos]
  omega

/-- The port of a form. -/
theorem portOf_form (f : Form) : ∃ p, portOf f.port = .ok p ∧ p.toNat = f.portNumber := by
  cases hport : f.port with
  | none => exact ⟨0, rfl, by rw [Form.portNumber, hport]; rfl⟩
  | some ds =>
    obtain ⟨hne, hdigits, hle⟩ := f.port_decimal ds hport
    refine ⟨UInt16.ofNat (decimal ds), ?_, ?_⟩
    · have hmod : ((decimal ds : Int) % 2 ^ 16).toNat = decimal ds := by omega
      rw [portOf, stoi_of_digits hne hdigits (by omega)]
      show Except.ok (UInt16.ofNat ((decimal ds : Int) % 2 ^ 16).toNat) = _
      rw [hmod]
    · rw [Form.portNumber, hport, UInt16.toNat_ofNat']
      exact Nat.mod_eq_of_lt (by omega)

/-! ## What `from` does on each kind of text -/

theorem content_of_drop {s xs ys zs : List UInt8} (h : s = xs ++ (ys ++ zs)) {n k : Nat}
    (hn : xs.length = n) (hk : ys.length = k) : content s ⟨n, k⟩ = some ys := by
  subst h hn hk
  unfold content
  by_cases h0 : ys.length = 0
  · rw [if_pos h0, List.length_eq_zero_iff.mp h0]
  · rw [if_neg h0, if_pos (by simp only [List.length_append]; omega), List.drop_left,
      List.take_left]

/-- A view that is not empty does not have empty content. -/
theorem content_ne_nil {s : List UInt8} {v : StringView} (h : 0 < v.size) :
    content s v ≠ some [] := by
  unfold content
  rw [if_neg (by omega)]
  split
  · rename_i hle
    intro hnil
    have hlen := congrArg List.length (Option.some.inj hnil)
    rw [List.length_take, List.length_drop, List.length_nil] at hlen
    omega
  · exact nofun

/-- On a form with a host and no path `from` finds the parts. -/
theorem describes_of_hostOnly {f : Form} (hhost : f.host ≠ []) (hpath : f.path = none) :
    ∃ u, URI.fromView f.text = .ok (some u) ∧ f.Describes u := by
  obtain ⟨first, host, hcons⟩ := List.exists_cons_of_ne_nil hhost
  have hfree := f.host_free
  rw [hcons] at hfree
  obtain ⟨p, hport, hp⟩ := portOf_form f
  have hfrom := fromView_splitText f.scheme slash slash first host f.port f.path f.scheme_free
    hfree.tail
    f.port_free
  rw [hport, ← f.text_eq_splitText hcons, hpath] at hfrom
  refine ⟨_, hfrom, ?_, ?_, hp, ?_⟩
  · exact content_of_drop (show f.text = [] ++ (f.scheme ++ _) from rfl) rfl rfl
  · have htext : f.text = (f.scheme ++ [colon, slash, slash]) ++
        (f.host ++ (prefixed colon f.port ++ prefixed slash f.path)) := by
      simp [Form.text]
    exact content_of_drop htext (by simp) (by rw [hcons, List.length_cons, Nat.add_comm])
  · have htext : f.text = splitText f.scheme slash slash first host f.port none := by
      rw [f.text_eq_splitText hcons, hpath]
    rw [htext]
    show content _ (pathView _ _ _) = _
    rw [pathView_of_none, hpath]
    rfl

/-- The view of a path that is there reaches past the end of the text. -/
theorem content_path_of_some {f : Form} {q : List UInt8} {u : URI} (hhost : f.host ≠ [])
    (hq : f.path = some q) (hu : URI.fromView f.text = .ok (some u)) :
    content f.text u.path = none := by
  obtain ⟨first, host, hcons⟩ := List.exists_cons_of_ne_nil hhost
  have hfree := f.host_free
  rw [hcons] at hfree
  obtain ⟨p, hport, _⟩ := portOf_form f
  have hp0 : f.port = none → p = 0 := by
    intro hnone
    rw [hnone] at hport
    exact (Except.ok.inj hport).symm
  have htext : f.text = splitText f.scheme slash slash first host f.port (some q) := by
    rw [f.text_eq_splitText hcons, hq]
  have hfrom := fromView_splitText f.scheme slash slash first host f.port (some q) f.scheme_free
    hfree.tail
    f.port_free
  obtain ⟨hpos, hend⟩ := pathView_of_some f.scheme slash slash first host f.port q p hp0
  rw [← htext] at hfrom hpos hend
  rw [hport, hu] at hfrom
  cases hfrom
  show content f.text (pathView _ _ p) = none
  rw [content, if_neg (Nat.ne_of_gt hpos), if_neg]
  rw [hend]
  omega

/-- What is behind the three bytes has a host, and maybe a port and a path. -/
theorem exists_splitText (scheme : List UInt8) (c1 c2 first : UInt8) (rest : List UInt8) :
    ∃ host port path, scheme ++ colon :: c1 :: c2 :: first :: rest =
        splitText scheme c1 c2 first host port path ∧
      Free (fun c => c = colon ∨ c = slash) host ∧
      ∀ ds, port = some ds → Free (fun c => c = slash) ds := by
  have hnone : ∀ ds, (none : Option (List UInt8)) = some ds → Free (fun c => c = slash) ds := by
    intro ds hds
    cases hds
  obtain ⟨host, tail, rfl, hhost, htail⟩ :=
    exists_field (fun c : UInt8 => c = colon ∨ c = slash) rest
  cases tail with
  | nil => exact ⟨host, none, none, rfl, hhost, hnone⟩
  | cons c tail =>
    rcases htail c tail rfl with rfl | rfl
    · obtain ⟨ds, path, rfl, hds, hpath⟩ := exists_field (fun c : UInt8 => c = slash) tail
      have hport : ∀ es, some ds = some es → Free (fun c => c = slash) es := by
        intro es hes
        obtain rfl := Option.some.inj hes
        exact hds
      cases path with
      | nil => exact ⟨host, some ds, none, rfl, hhost, hport⟩
      | cons c q =>
        obtain rfl := hpath c q rfl
        exact ⟨host, some ds, some q, rfl, hhost, hport⟩
    · exact ⟨host, none, some tail, rfl, hhost, hnone⟩

/-- On a text with three bytes behind its first `:`, `from` has no other result than a URI with a
nonempty view of the host. -/
theorem fromView_of_authority (c1 c2 first : UInt8) (rest : List UInt8) {scheme : List UInt8}
    (hscheme : Free (fun c => c = colon) scheme) :
    URI.fromView (scheme ++ colon :: c1 :: c2 :: first :: rest) ≠ .ok none ∧
      ∀ u, URI.fromView (scheme ++ colon :: c1 :: c2 :: first :: rest) = .ok (some u) →
        0 < u.host.size := by
  obtain ⟨host, port, path, htext, hhost, hport⟩ := exists_splitText scheme c1 c2 first rest
  rw [htext, fromView_splitText scheme c1 c2 first host port path hscheme hhost hport]
  cases portOf port with
  | error fault =>
    constructor
    · intro h
      cases h
    · intro u hu
      cases hu
  | ok p =>
    constructor
    · intro h
      cases h
    intro u hu
    cases hu
    exact Nat.lt_of_lt_of_le Nat.one_pos (Nat.le_add_right 1 host.length)

/-- A text without `:` is accepted. -/
theorem fromView_of_free {s : List UInt8} (h : Free (fun c => c = colon) s) :
    ∃ u, URI.fromView s = .ok (some u) := by
  have hquiet : Free (Acts .scheme) s := h
  have hport : readPort s ⟨.scheme, s.length, s.length, s.length⟩ = .ok 0 := by
    rw [readPort, if_neg (by simp)]
  rw [URI.fromView, scan_of_free hquiet]
  show ∃ u, (readPort s _).map _ = _
  rw [hport]
  exact ⟨_, rfl⟩

/-- With fewer than three bytes behind the first `:` the cursor gets past the end. -/
theorem fromView_of_short {scheme rest : List UInt8} (hscheme : Free (fun c => c = colon) scheme)
    (h : rest.length < 3) : URI.fromView (scheme ++ colon :: rest) = .error .outOfBounds := by
  have hquiet : Free (Acts .scheme) scheme := hscheme
  rw [URI.fromView, scan_append hquiet]
  rcases rest with _ | ⟨c1, _ | ⟨c2, _ | ⟨first, rest⟩⟩⟩
  · rfl
  · rfl
  · rfl
  · simp only [List.length_cons] at h
    omega

/-- `from` never answers `nullopt`. -/
theorem fromView_ne_none (s : List UInt8) : URI.fromView s ≠ .ok none := by
  obtain ⟨scheme, tail, rfl, hscheme, htail⟩ := exists_field (fun c : UInt8 => c = colon) s
  cases tail with
  | nil =>
    rw [List.append_nil]
    obtain ⟨u, hu⟩ := fromView_of_free hscheme
    rw [hu]
    exact nofun
  | cons c rest =>
    obtain rfl := htail c rest rfl
    match rest with
    | [] | [_] | [_, _] =>
      rw [fromView_of_short hscheme (by simp)]
      exact nofun
    | c1 :: c2 :: first :: rest => exact (fromView_of_authority c1 c2 first rest hscheme).1

/-! ## Where `from` follows the grammar -/

theorem exact_of_hostOnly {s : List UInt8} (h : HostOnly s) : Exact s := by
  obtain ⟨f, rfl, hhost, hpath⟩ := h
  constructor
  · intro g hg
    obtain rfl := Form.text_injective hg
    exact describes_of_hostOnly hhost hpath
  · intro hnone
    exact absurd rfl (hnone f)

/-- A form that is read as it is has a host, and no path. -/
theorem hostOnly_of_describes {f : Form} {u : URI} (hu : URI.fromView f.text = .ok (some u))
    (h : f.Describes u) : f.host ≠ [] ∧ f.path = none := by
  have hhost : f.host ≠ [] := by
    intro hnil
    have hcontent := h.host
    rw [hnil] at hcontent
    have htext : f.text = f.scheme ++ colon :: slash :: slash ::
        (prefixed colon f.port ++ prefixed slash f.path) := by
      rw [Form.text, hnil, List.nil_append]
    rw [htext] at hu
    -- the scanner needs one byte more, and takes it for the host
    cases hrest : prefixed colon f.port ++ prefixed slash f.path with
    | nil =>
      rw [hrest, fromView_of_short f.scheme_free (by simp)] at hu
      cases hu
    | cons first rest =>
      rw [hrest] at hu
      exact content_ne_nil ((fromView_of_authority slash slash first rest f.scheme_free).2 u hu)
        hcontent
  refine ⟨hhost, ?_⟩
  by_contra hpath
  obtain ⟨q, hq⟩ := Option.ne_none_iff_exists'.mp hpath
  have hcontent := h.path
  rw [content_path_of_some hhost hq hu] at hcontent
  cases hcontent

/-- `from` does what the grammar asks for on the texts with a host and no path. -/
theorem exact_iff (s : List UInt8) : Exact s ↔ HostOnly s := by
  refine ⟨?_, exact_of_hostOnly⟩
  rintro ⟨haccept, hreject⟩
  by_cases hform : ∃ f : Form, f.text = s
  · obtain ⟨f, rfl⟩ := hform
    obtain ⟨u, hu, hdescribes⟩ := haccept f rfl
    exact ⟨f, rfl, hostOnly_of_describes hu hdescribes⟩
  · exact absurd (hreject fun f hf => hform ⟨f, hf⟩) (fromView_ne_none s)

/-- `a://h/b`: the view of the path is two bytes long and reaches past the end. -/
theorem not_exact_path : ¬ Exact [0x61, 0x3A, 0x2F, 0x2F, 0x68, 0x2F, 0x62] := by
  intro h
  have hform : ∃ f : Form, f.text = [0x61, 0x3A, 0x2F, 0x2F, 0x68, 0x2F, 0x62] :=
    ⟨⟨[0x61], [0x68], none, some [0x62], by simp [Free, colon], by simp [Free, colon, slash],
      nofun⟩, rfl⟩
  obtain ⟨f, hf⟩ := hform
  obtain ⟨u, hu, hdescribes⟩ := h.1 f hf
  have hfrom : URI.fromView [0x61, 0x3A, 0x2F, 0x2F, 0x68, 0x2F, 0x62] =
      .ok (some ⟨[0x61, 0x3A, 0x2F, 0x2F, 0x68, 0x2F, 0x62], ⟨0, 1⟩, ⟨4, 1⟩, ⟨6, 2⟩, 0⟩) := rfl
  rw [hfrom] at hu
  cases hu
  have hpath := hdescribes.path
  rw [hf] at hpath
  cases hpath

end Csics.Net
