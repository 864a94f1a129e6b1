/-
# The grammar of workspace paths

The documented grammar says which texts are workspace paths: components joined by `/`, with at most one
trailing `/`, in at most 256 bytes (`Grammar`).  `new` accepts exactly these and keeps the components
(`new_eq_ok_iff`), so that the text of an accepted path reads back as the same path.  On Unix a path covers
another exactly when its components are a prefix of the other's.
-/
import Faktor.OwnershipPaths
import Faktor.SplitJoin
import Faktor.TextBytes

namespace Ownership

open SplitJoin

/-! ## The documented grammar -/

/-- A device name of Windows, in any case, with or without an extension. -/
def DeviceName (component : List Char) : Prop :=
  ∃ stem ext, component = stem ++ ext ∧ (ext = [] ∨ ext.head? = some '.') ∧
    (stem.map Char.toUpper ∈ ["CON".toList, "PRN".toList, "AUX".toList, "NUL".toList] ∨
      ∃ device ∈ ["COM".toList, "LPT".toList], ∃ digit ∈ "0123456789".toList,
        stem.map Char.toUpper = device ++ [digit])

/-- A component of a workspace path. -/
structure PathComponent (component : List Char) : Prop where
  nonempty : component ≠ []
  separators : '/' ∉ component ∧ '\\' ∉ component ∧ ':' ∉ component
  printable : ∀ c ∈ component, isControl c = false
  dots : component ≠ ['.'] ∧ component ≠ ['.', '.']
  ending : component.getLast? ≠ some '.' ∧ component.getLast? ≠ some ' '
  device : ¬ DeviceName component

/-- A text of these components: joined by separators, with or without the mark of a directory. -/
structure Grammar (raw : String) (components : List (List Char)) : Prop where
  nonempty : components ≠ []
  pieces : ∀ component ∈ components, PathComponent component
  text : raw.toList = ['/'].intercalate components ∨
    raw.toList = ['/'].intercalate components ++ ['/']
  bytes : raw.utf8ByteSize ≤ maxNormalizedWorkspacePathBytes

/-! ## Device names -/

theorem mem_digits_iff (c : Char) : c ∈ "0123456789".toList ↔ c.isDigit = true := by
  constructor
  · intro h
    have hmem : c ∈ ['0', '1', '2', '3', '4', '5', '6', '7', '8', '9'] := h
    simp only [List.mem_cons, List.not_mem_nil, or_false] at hmem
    rcases hmem with rfl | rfl | rfl | rfl | rfl | rfl | rfl | rfl | rfl | rfl <;> rfl
  · intro h
    have hrange : 48 ≤ c.toNat ∧ c.toNat ≤ 57 := by
      rw [Char.isDigit, Bool.and_eq_true, decide_eq_true_iff, decide_eq_true_iff] at h
      exact ⟨h.1, h.2⟩
    have hofNat : Char.ofNat c.toNat = c := Char.ofNat_toNat c
    rw [← hofNat]
    obtain ⟨n, hn⟩ : ∃ n, n = c.toNat := ⟨_, rfl⟩
    rw [← hn] at hrange ⊢
    obtain ⟨hlow, hhigh⟩ := hrange
    interval_cases n <;> decide

/-- A stem whose upper case has no dot is what stands before the first dot. -/
theorem takeWhile_stem {stem ext : List Char} (hstem : '.' ∉ stem.map Char.toUpper)
    (hext : ext = [] ∨ ext.head? = some '.') : (stem ++ ext).takeWhile (· != '.') = stem := by
  have hall : ∀ c ∈ stem, (c != '.') = true := by
    intro c hc
    rw [bne_iff_ne]
    rintro rfl
    exact hstem (List.mem_map.mpr ⟨'.', hc, rfl⟩)
  rw [List.takeWhile_append_of_pos hall]
  rcases hext with rfl | hext
  · simp
  · obtain ⟨rest, rfl⟩ := List.head?_eq_some_iff.mp hext
    simp

theorem isReservedDeviceName_iff (component : List Char) :
    isReservedDeviceName component = true ↔ DeviceName component := by
  have hshape : ∀ upper : List Char,
      (["CON".toList, "PRN".toList, "AUX".toList, "NUL".toList].contains upper ||
        ["COM".toList, "LPT".toList].any fun device =>
          upper.length == 4 && device.isPrefixOf upper && (upper.drop 3).all Char.isDigit) = true ↔
      (upper ∈ ["CON".toList, "PRN".toList, "AUX".toList, "NUL".toList] ∨
        ∃ device ∈ ["COM".toList, "LPT".toList], ∃ digit ∈ "0123456789".toList,
          upper = device ++ [digit]) := by
    intro upper
    rw [Bool.or_eq_true, List.contains_iff_mem, List.any_eq_true]
    refine or_congr_right ⟨?_, ?_⟩
    · rintro ⟨device, hdevice, hupper⟩
      rw [Bool.and_eq_true, Bool.and_eq_true, beq_iff_eq, List.isPrefixOf_iff_prefix] at hupper
      obtain ⟨⟨hlength, rest, rfl⟩, hdigits⟩ := hupper
      have hthree : device.length = 3 := by
        rcases List.mem_pair.mp hdevice with rfl | rfl <;> rfl
      rw [List.length_append, hthree] at hlength
      obtain ⟨digit, rfl⟩ := List.length_eq_one_iff.mp (by omega : rest.length = 1)
      rw [List.drop_left' hthree] at hdigits
      exact ⟨device, hdevice, digit, (mem_digits_iff digit).mpr (by simpa using hdigits), rfl⟩
    · rintro ⟨device, hdevice, digit, hdigit, rfl⟩
      have hthree : device.length = 3 := by
        rcases List.mem_pair.mp hdevice with rfl | rfl <;> rfl
      refine ⟨device, hdevice, ?_⟩
      rw [Bool.and_eq_true, Bool.and_eq_true, beq_iff_eq, List.isPrefixOf_iff_prefix]
      refine ⟨⟨by simp [hthree], List.prefix_append _ _⟩, ?_⟩
      rw [List.drop_left' hthree]
      simpa using (mem_digits_iff digit).mp hdigit
  rw [isReservedDeviceName, hshape]
  constructor
  · intro h
    refine ⟨component.takeWhile (· != '.'), component.dropWhile (· != '.'),
      List.takeWhile_append_dropWhile.symm, ?_, h⟩
    cases hdrop : component.dropWhile (· != '.') with
    | nil => exact .inl rfl
    | cons c rest =>
      have hhead := List.head?_dropWhile_not (· != '.') component
      rw [hdrop] at hhead
      right
      simpa using hhead
  · rintro ⟨stem, ext, rfl, hext, h⟩
    have hstem : '.' ∉ stem.map Char.toUpper := by
      rcases h with h | ⟨device, hdevice, digit, hdigit, h⟩
      · generalize stem.map Char.toUpper = upper at h
        revert upper
        decide
      · have hdot : digit ≠ '.' := by
          rintro rfl
          exact absurd hdigit (by decide)
        rw [h, List.mem_append, not_or]
        refine ⟨?_, by simpa using hdot.symm⟩
        rcases List.mem_pair.mp hdevice with rfl | rfl <;> decide
    rw [takeWhile_stem hstem hext]
    exact h

/-- The rules refuse what is no component, apart from the characters. -/
theorem componentViolation_eq_none {c : List Char} (hslash : '/' ∉ c) (hback : '\\' ∉ c)
    (hcolon : ':' ∉ c) (hprint : ∀ x ∈ c, isControl x = false) :
    componentViolation c = none ↔ PathComponent c := by
  constructor
  · intro h
    unfold componentViolation at h
    split_ifs at h with hnil hdot hdots hending hdevice
    rw [not_or] at hending
    exact ⟨hnil, ⟨hslash, hback, hcolon⟩, hprint, ⟨hdot, hdots⟩, hending,
      fun hname => hdevice ((isReservedDeviceName_iff c).mpr hname)⟩
  · intro h
    unfold componentViolation
    rw [if_neg h.nonempty, if_neg h.dots.1, if_neg h.dots.2, if_neg (not_or.mpr h.ending),
      if_neg (fun hname => h.device ((isReservedDeviceName_iff c).mp hname))]

/-! ## What `new` accepts -/

namespace NormalizedWorkspacePath

/-- The `/`-separated components. -/
def components (p : NormalizedWorkspacePath) : List (List Char) := p.text.splitOn '/'

theorem text_eq_intercalate (p : NormalizedWorkspacePath) : ['/'].intercalate p.components = p.text :=
  List.intercalate_splitOn '/'

variable {p q : NormalizedWorkspacePath}

/-- A path is its components. -/
theorem ext_components (h : p.components = q.components) : p = q := by
  have htext : p.text = q.text := splitOn_inj h
  obtain ⟨a, ha⟩ := p
  obtain ⟨b, hb⟩ := q
  cases htext
  rfl

/-- The checks of `new`, in the order of the code. -/
structure Checked (raw : String) : Prop where
  nonempty : raw.toList ≠ []
  bytes : raw.utf8ByteSize ≤ maxNormalizedWorkspacePathBytes
  printable : ∀ c ∈ raw.toList, isControl c = false
  relative : raw.toList.head? ≠ some '/'
  backslash : '\\' ∉ raw.toList
  colon : ':' ∉ raw.toList
  marked : raw.toList.getLast? = some '/' → (body raw.toList).getLast? ≠ some '/'

variable {raw : String}

theorem new_eq_ok_iff_checked :
    new raw = .ok p ↔ Checked raw ∧ p.text = body raw.toList := by
  unfold new
  simp only
  constructor
  · intro h
    split_ifs at h with hnil hbytes hprint habs hback hcolon hmark
    split at h
    · cases h
    · obtain rfl := Except.ok.inj h
      refine ⟨⟨hnil, Nat.not_lt.mp hbytes, ?_, habs, hback, hcolon, fun hlast => ?_⟩, rfl⟩
      · intro c hc
        by_contra hcontrol
        exact hprint (List.any_eq_true.mpr ⟨c, hc, by simpa using hcontrol⟩)
      · exact fun hbody => hmark ⟨hlast, hbody⟩
  · rintro ⟨h, htext⟩
    have hprint : ¬ raw.toList.any isControl = true := by
      rw [List.any_eq_true]
      rintro ⟨c, hc, hcontrol⟩
      rw [h.printable c hc] at hcontrol
      cases hcontrol
    rw [if_neg h.nonempty, if_neg (Nat.not_lt.mpr h.bytes), if_neg hprint, if_neg h.relative,
      if_neg h.backslash, if_neg h.colon, if_neg (fun hmark => h.marked hmark.1 hmark.2)]
    have hcanonical := p.canonical
    rw [htext] at hcanonical
    split
    · next kind hkind =>
      rw [hcanonical] at hkind
      cases hkind
    · obtain ⟨text, canonical⟩ := p
      cases htext
      rfl

theorem body_eq_or (raw : List Char) : raw = body raw ∧ raw.getLast? ≠ some '/' ∨
    raw = body raw ++ ['/'] ∧ raw.getLast? = some '/' := by
  unfold body
  by_cases hlast : raw.getLast? = some '/'
  · right
    rw [if_pos hlast]
    obtain ⟨front, rfl⟩ := List.getLast?_eq_some_iff.mp hlast
    simp
  · left
    rw [if_neg hlast]
    exact ⟨rfl, hlast⟩

/-- The first and the last character of a joined text are those of components. -/
theorem ends_of_components {components : List (List Char)} (hne : components ≠ [])
    (h : ∀ c ∈ components, PathComponent c) :
    ['/'].intercalate components ≠ [] ∧ (['/'].intercalate components).head? ≠ some '/' ∧
      (['/'].intercalate components).getLast? ≠ some '/' := by
  induction components with
  | nil => exact absurd rfl hne
  | cons first rest ih =>
    have hfirst := h first List.mem_cons_self
    have hmem : ∀ {o : Option Char}, o = some '/' → (∀ c, o = some c → c ∈ first) → False :=
      fun ho hin => hfirst.separators.1 (hin '/' ho)
    by_cases hrest : rest = []
    · subst hrest
      rw [List.intercalate_singleton]
      exact ⟨hfirst.nonempty, fun ho => hmem ho fun c => List.mem_of_mem_head?,
        fun ho => hmem ho fun c => List.mem_of_getLast?⟩
    · obtain ⟨hne', -, hlast⟩ := ih hrest fun c hc => h c (List.mem_cons_of_mem first hc)
      rw [List.intercalate_cons_of_ne_nil hrest, List.append_assoc]
      refine ⟨by simp [hfirst.nonempty], ?_, ?_⟩
      · rw [List.head?_append_of_ne_nil _ hfirst.nonempty]
        exact fun ho => hmem ho fun c => List.mem_of_mem_head?
      · rw [List.getLast?_append_of_ne_nil _ (by simp), List.getLast?_append_of_ne_nil _ hne']
        exact hlast

/-- **What `new` accepts**: the texts of the grammar, with the components that the grammar gives them. -/
theorem new_eq_ok_iff :
    new raw = .ok p ↔ Grammar raw p.components := by
  rw [new_eq_ok_iff_checked]
  constructor
  · rintro ⟨h, htext⟩
    have hbody : ∀ c ∈ p.text, c ∈ raw.toList := by
      intro c hc
      rw [htext] at hc
      rcases body_eq_or raw.toList with ⟨heq, -⟩ | ⟨heq, -⟩
      · rw [heq]
        exact hc
      · rw [heq]
        exact List.mem_append_left _ hc
    constructor
    case nonempty => exact List.splitOn_ne_nil '/' p.text
    case pieces =>
      intro c hc
      have hmem : ∀ x ∈ c, x ∈ raw.toList := fun x hx => hbody x (mem_of_mem_splitOn hc hx)
      have hnone := List.findSome?_eq_none_iff.mp p.canonical c hc
      refine (componentViolation_eq_none (notMem_of_mem_splitOn hc) (fun hx => h.backslash (hmem _ hx))
        (fun hx => h.colon (hmem _ hx)) fun x hx => h.printable x (hmem x hx)).mp hnone
    case text =>
      rw [text_eq_intercalate, htext]
      rcases body_eq_or raw.toList with ⟨heq, -⟩ | ⟨heq, -⟩
      · exact .inl heq
      · exact .inr heq
    case bytes => exact h.bytes
  · intro h
    obtain ⟨hne, hhead, hlast⟩ := ends_of_components h.nonempty h.pieces
    have hjoined := text_eq_intercalate p
    rw [hjoined] at hne hhead hlast
    have hraw := h.text
    rw [hjoined] at hraw
    have hbody : p.text = body raw.toList := by
      rcases hraw with heq | heq
      · rw [heq, body, if_neg hlast]
      · rw [heq, body, if_pos (by simp), List.dropLast_concat]
    have hchar : ∀ x ∈ raw.toList, x = '/' ∨ ∃ c ∈ p.components, x ∈ c := by
      intro x hx
      rcases hraw with heq | heq
      · rw [heq, ← hjoined] at hx
        exact mem_intercalate hx
      · rw [heq, List.mem_append, List.mem_singleton, ← hjoined] at hx
        rcases hx with hx | hx
        · exact mem_intercalate hx
        · exact .inl hx
    refine ⟨⟨?_, h.bytes, ?_, ?_, ?_, ?_, ?_⟩, hbody⟩
    · rcases hraw with heq | heq
      · rw [heq]
        exact hne
      · rw [heq]
        simp
    · intro x hx
      rcases hchar x hx with rfl | ⟨c, hc, hxc⟩
      · decide
      · exact (h.pieces c hc).printable x hxc
    · rcases hraw with heq | heq
      · rw [heq]
        exact hhead
      · rw [heq, List.head?_append_of_ne_nil _ hne]
        exact hhead
    · intro hx
      rcases hchar _ hx with habs | ⟨c, hc, hxc⟩
      · exact absurd habs (by decide)
      · exact (h.pieces c hc).separators.2.1 hxc
    · intro hx
      rcases hchar _ hx with habs | ⟨c, hc, hxc⟩
      · exact absurd habs (by decide)
      · exact (h.pieces c hc).separators.2.2 hxc
    · intro _
      rw [← hbody]
      exact hlast

/-- The path of the components that the grammar gives a text. -/
theorem exists_new_of_grammar {components : List (List Char)} (h : Grammar raw components) :
    ∃ p, new raw = .ok p ∧ p.components = components := by
  have hslash : ∀ c ∈ components, '/' ∉ c := fun c hc => (h.pieces c hc).separators.1
  have hsplit : (['/'].intercalate components).splitOn '/' = components :=
    List.splitOn_intercalate '/' hslash h.nonempty
  have hcanonical : ((['/'].intercalate components).splitOn '/').findSome? componentViolation = none := by
    rw [hsplit, List.findSome?_eq_none_iff]
    intro c hc
    have hc := h.pieces c hc
    exact (componentViolation_eq_none hc.separators.1 hc.separators.2.1 hc.separators.2.2
      hc.printable).mpr hc
  refine ⟨⟨_, hcanonical⟩, new_eq_ok_iff.mpr ?_, hsplit⟩
  show Grammar raw ((['/'].intercalate components).splitOn '/')
  rw [hsplit]
  exact h

/-! ## The text of a path -/

/-- `as_str`, which is also what is serialized. -/
def asStr (p : NormalizedWorkspacePath) : String := String.ofList p.text

/-- The decode of a serialized path validates it. -/
def deserialize (raw : String) : Except PathViolation NormalizedWorkspacePath := new raw

/-- The text of an accepted path is in the grammar, without the mark of a directory. -/
theorem grammar_asStr (h : Grammar raw p.components) :
    Grammar p.asStr p.components := by
  have htext : p.asStr.toList = p.text := String.toList_ofList
  constructor
  case nonempty => exact h.nonempty
  case pieces => exact h.pieces
  case text =>
    rw [htext, text_eq_intercalate]
    exact .inl rfl
  case bytes =>
    have hraw := h.text
    rw [text_eq_intercalate] at hraw
    refine le_trans ?_ h.bytes
    rw [TextBytes.utf8ByteSize_eq_byteLen, TextBytes.utf8ByteSize_eq_byteLen, htext]
    rcases hraw with heq | heq
    · rw [heq]
    · rw [heq, TextBytes.byteLen_append]
      exact Nat.le_add_right _ _

/-- **Reading back**: the text of an accepted path is accepted as the same path. -/
theorem new_asStr (h : new raw = .ok p) :
    new p.asStr = .ok p :=
  new_eq_ok_iff.mpr (grammar_asStr (new_eq_ok_iff.mp h))

/-! ## Covering -/

/-- On Unix a path covers the paths that its components are a prefix of. -/
theorem covers_iff_components :
    p.covers false q = true ↔ p.components <+: q.components := by
  rw [covers_iff]
  exact prefix_iff_splitOn_prefix

theorem overlaps_iff_components :
    p.overlaps false q = true ↔ p.components <+: q.components ∨ q.components <+: p.components := by
  rw [overlaps, Bool.or_eq_true, covers_iff_components, covers_iff_components]

/-- **What a workspace path guarantees.**  Exactly the texts of the grammar are accepted, with their
components; the text of an accepted path reads back as that path; covering is the prefix order of the
components; and two paths overlap, each the other, exactly when their components are comparable. -/
theorem path_guarantee :
    (∀ raw components, Grammar raw components ↔ ∃ p, new raw = .ok p ∧ p.components = components) ∧
    (∀ raw p, new raw = .ok p → new p.asStr = .ok p ∧ deserialize p.asStr = .ok p) ∧
    (∀ p q : NormalizedWorkspacePath, p.covers false q = true ↔ p.components <+: q.components) ∧
    (∀ p : NormalizedWorkspacePath, p.covers false p = true) ∧
    (∀ p q : NormalizedWorkspacePath, p.covers false q = true → q.covers false p = true → p = q) ∧
    (∀ p q r : NormalizedWorkspacePath, p.covers false q = true → q.covers false r = true →
      p.covers false r = true) ∧
    ∀ p q : NormalizedWorkspacePath, p.overlaps false q = q.overlaps false p ∧
      (p.overlaps false q = true ↔ p.components <+: q.components ∨ q.components <+: p.components) := by
  refine ⟨fun raw components => ⟨exists_new_of_grammar, ?_⟩, fun raw p h => ⟨new_asStr h, new_asStr h⟩,
    fun p q => covers_iff_components, fun p => ?_, fun p q hpq hqp => ?_, fun p q r hpq hqr => ?_,
    fun p q => ⟨overlaps_comm, overlaps_iff_components⟩⟩
  · rintro ⟨p, hp, rfl⟩
    exact new_eq_ok_iff.mp hp
  · rw [covers_iff_components]
  · rw [covers_iff_components] at hpq hqp
    exact ext_components (hpq.eq_of_length_le hqp.length_le)
  · rw [covers_iff_components] at hpq hqr ⊢
    exact hpq.trans hqr

/-- A directory, its canonical text and a file below it. -/
theorem path_guarantee_src :
    let p : NormalizedWorkspacePath := ⟨"src".toList, by decide +kernel⟩
    let q : NormalizedWorkspacePath := ⟨"src/lib.rs".toList, by decide +kernel⟩
    new p.asStr = .ok p ∧ p.covers false q = true ∧ q.overlaps false p = true := by
  intro p q
  obtain ⟨-, hback, hcovers, -, -, -, hoverlaps⟩ := path_guarantee
  have hprefix : p.components <+: q.components := by decide +kernel
  refine ⟨(hback "src/" p (by decide +kernel)).1, (hcovers p q).mpr hprefix, ?_⟩
  exact (hoverlaps q p).2.mpr (.inr hprefix)

end NormalizedWorkspacePath

end Ownership
