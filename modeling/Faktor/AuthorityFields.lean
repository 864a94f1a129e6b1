/-
# Authority digests

An authority digest is the hash of a domain, a version and a sequence of fields, each field and the domain
behind its length.  The hash is a parameter; what is hashed tells the domain, the version and the fields
(`serialize_inj`), and so the digest of a criterion binding is computed from bytes that tell the binding.

Slices and strings of the code have less than `2 ^ 63` bytes, and a field at most one byte more.
-/
import Faktor.ByteFraming

namespace Authority

open ByteFraming

/-! ## Strings and fields -/

/-- A `&str`. -/
structure Str where
  value : String
  bounded : value.utf8ByteSize < 2 ^ 63
  deriving DecidableEq

/-- A string that the code spells out. -/
def Str.lit (value : String) (bounded : value.utf8ByteSize < 2 ^ 63 := by decide) : Str := ⟨value, bounded⟩

/-- `str::as_bytes`. -/
def Str.bytes (s : Str) : List UInt8 := s.value.toByteArray.data.toList

theorem Str.length_bytes (s : Str) : s.bytes.length = s.value.utf8ByteSize := by
  rw [Str.bytes, ← String.size_toByteArray]
  rfl

theorem Str.bytes_inj {s t : Str} : s.bytes = t.bytes ↔ s = t := by
  constructor
  · intro h
    have hvalue : s.value = t.value :=
      String.toByteArray_inj.mp (ByteArray.ext (Array.ext' h))
    obtain ⟨a, ha⟩ := s
    obtain ⟨b, hb⟩ := t
    cases hvalue
    rfl
  · exact fun h => h ▸ rfl

/-- One field, or a domain: a byte string whose length fits in 64 bits. -/
structure Field where
  bytes : List UInt8
  bounded : bytes.length < 2 ^ 64
  deriving DecidableEq

theorem Field.ext_bytes {f g : Field} (h : f.bytes = g.bytes) : f = g := by
  obtain ⟨a, ha⟩ := f
  obtain ⟨b, hb⟩ := g
  cases h
  rfl

/-- A string as a field. -/
def Str.field (s : Str) : Field where
  bytes := s.bytes
  bounded := by
    rw [s.length_bytes]
    exact lt_trans s.bounded (by norm_num)

/-- An optional string as a field: `[0]`, or the string behind a `1`. -/
def Str.optField : Option Str → Field
  | none => ⟨[0], by simp⟩
  | some s =>
    { bytes := 1 :: s.bytes
      bounded := by
        have := s.bounded
        rw [List.length_cons, s.length_bytes]
        omega }

/-- `to_le_bytes` as a field. -/
def uintField (n : UInt64) : Field where
  bytes := littleEndian 8 n.toNat
  bounded := by simp

theorem Str.field_inj {s t : Str} : s.field = t.field ↔ s = t := by
  constructor
  · intro h
    exact Str.bytes_inj.mp (congrArg Field.bytes h)
  · exact fun h => h ▸ rfl

theorem Str.optField_inj {s t : Option Str} : Str.optField s = Str.optField t ↔ s = t := by
  constructor
  · intro h
    have hbytes := congrArg Field.bytes h
    cases s with
    | none =>
      cases t with
      | none => rfl
      | some t => simp [Str.optField] at hbytes
    | some s =>
      cases t with
      | none => simp [Str.optField] at hbytes
      | some t => exact congrArg some (Str.bytes_inj.mp (List.cons.inj hbytes).2)
  · exact fun h => h ▸ rfl

/-! ## `Fields` -/

/-- `Fields`: an ordered sequence of fields. -/
abbrev Fields := List Field

namespace Fields

/-- `Fields::text`. -/
def text (fields : Fields) (value : Str) : Fields := fields ++ [value.field]

/-- `Fields::opt_text`. -/
def optText (fields : Fields) (value : Option Str) : Fields := fields ++ [Str.optField value]

/-- `Fields::uint`. -/
def uint (fields : Fields) (value : UInt64) : Fields := fields ++ [uintField value]

/-- `Fields::list`. -/
def list (fields : Fields) (items : List Str) : Fields := fields ++ items.map Str.field

/-- `write_fields`. -/
def write (fields : Fields) : List UInt8 := frames 8 (fields.map Field.bytes)

end Fields

/-! ## The serialization -/

/-- What `authority_digest` gives to the hasher. -/
def serialize (domain : Field) (version : UInt64) (fields : Fields) : List UInt8 :=
  frame 8 domain.bytes ++ (littleEndian 8 version.toNat ++ Fields.write fields)

/-- `authority_digest_labeled`, with the hash function and its hexadecimal form. -/
def authorityDigestLabeled (hashHex : List UInt8 → String) (domain : Field) (version : UInt64)
    (fields : Fields) : String :=
  "blake3:" ++ hashHex (serialize domain version fields)

theorem Fields.write_inj {fields fields' : Fields} (h : Fields.write fields = Fields.write fields') :
    fields = fields' := by
  have hbound : ∀ (l : Fields), ∀ bytes ∈ l.map Field.bytes, bytes.length < 256 ^ 8 := by
    intro l bytes hbytes
    obtain ⟨f, -, rfl⟩ := List.mem_map.mp hbytes
    exact f.bounded
  have hmap := frames_injOn (by decide) (hbound fields) (hbound fields') h
  exact List.map_injective_iff.mpr (fun f g => Field.ext_bytes) hmap

/-- **The serialization is injective.** -/
theorem serialize_inj {domain domain' : Field} {version version' : UInt64} {fields fields' : Fields} :
    serialize domain version fields = serialize domain' version' fields' ↔
      domain = domain' ∧ version = version' ∧ fields = fields' := by
  constructor
  · intro h
    obtain ⟨hdomain, hrest⟩ := frame_append_inj domain.bounded domain'.bounded h
    obtain ⟨hversion, hfields⟩ := littleEndian_append_inj version.toNat_lt version'.toNat_lt hrest
    exact ⟨Field.ext_bytes hdomain, UInt64.toNat_inj.mp hversion, Fields.write_inj hfields⟩
  · rintro ⟨rfl, rfl, rfl⟩
    rfl

/-! ## Criterion bindings -/

/-- `CriterionBinding`. -/
inductive CriterionBinding
  | requiredCheck (checkId commandDigest : Str)
  | integrationCoverage (requiredWorkItems : List Str)
  | fileState (path expectedDigest : Str)
  | evidence (evidenceId evidenceDigest : Str)
  | independentReview (reviewerId : Str)
  | aggregateGoal
  | unavailable (reason : Str)
  deriving DecidableEq

namespace CriterionBinding

/-- `kind_label`. -/
def kindLabel : CriterionBinding → Str
  | requiredCheck _ _ => .lit "required_check"
  | integrationCoverage _ => .lit "integration_coverage"
  | fileState _ _ => .lit "file_state"
  | evidence _ _ => .lit "evidence"
  | independentReview _ => .lit "independent_review"
  | aggregateGoal => .lit "aggregate_goal"
  | unavailable _ => .lit "unavailable"

/-- The fields of `content_digest`. -/
def fields (binding : CriterionBinding) : Fields :=
  let labelled := Fields.text [] binding.kindLabel
  match binding with
  | requiredCheck checkId commandDigest => (labelled.text checkId).text commandDigest
  | integrationCoverage items => (labelled.uint (.ofNat items.length)).list items
  | fileState path expectedDigest => (labelled.text path).text expectedDigest
  | evidence evidenceId evidenceDigest => (labelled.text evidenceId).text evidenceDigest
  | independentReview reviewerId => labelled.text reviewerId
  | aggregateGoal => labelled
  | unavailable reason => labelled.text reason

/-- `DOMAIN_CRITERION_BINDING`. -/
def domain : Field := (Str.lit "faktor.criterion-binding").field

/-- The bytes that `content_digest` hashes. -/
def serialized (binding : CriterionBinding) : List UInt8 := serialize domain 1 binding.fields

/-- `content_digest`. -/
def contentDigest (hashHex : List UInt8 → String) (binding : CriterionBinding) : String :=
  authorityDigestLabeled hashHex domain 1 binding.fields

/-- The label stands first. -/
theorem head?_fields (binding : CriterionBinding) : binding.fields.head? = some binding.kindLabel.field := by
  cases binding <;> rfl

theorem fields_inj {b b' : CriterionBinding} : b.fields = b'.fields ↔ b = b' := by
  constructor
  · intro h
    have hlabel : b.kindLabel.value = b'.kindLabel.value := by
      have hhead := congrArg List.head? h
      rw [head?_fields, head?_fields] at hhead
      exact congrArg Str.value (Str.field_inj.mp (Option.some.inj hhead))
    cases b with
    | requiredCheck checkId commandDigest =>
      cases b' with
      | requiredCheck checkId' commandDigest' => simpa [fields, Fields.text, kindLabel, Str.field_inj] using h
      | _ => simp [kindLabel, Str.lit] at hlabel
    | integrationCoverage items =>
      cases b' with
      | integrationCoverage items' =>
        have hitems : items.map Str.field = items'.map Str.field := by
          have htail := congrArg (List.drop 2) h
          simpa [fields, Fields.text, Fields.uint, Fields.list] using htail
        rw [List.map_injective_iff.mpr (fun s t => Str.field_inj.mp) hitems]
      | _ => simp [kindLabel, Str.lit] at hlabel
    | fileState path expectedDigest =>
      cases b' with
      | fileState path' expectedDigest' => simpa [fields, Fields.text, kindLabel, Str.field_inj] using h
      | _ => simp [kindLabel, Str.lit] at hlabel
    | evidence evidenceId evidenceDigest =>
      cases b' with
      | evidence evidenceId' evidenceDigest' => simpa [fields, Fields.text, kindLabel, Str.field_inj] using h
      | _ => simp [kindLabel, Str.lit] at hlabel
    | independentReview reviewerId =>
      cases b' with
      | independentReview reviewerId' => simpa [fields, Fields.text, kindLabel, Str.field_inj] using h
      | _ => simp [kindLabel, Str.lit] at hlabel
    | aggregateGoal =>
      cases b' with
      | aggregateGoal => rfl
      | _ => simp [kindLabel, Str.lit] at hlabel
    | unavailable reason =>
      cases b' with
      | unavailable reason' => simpa [fields, Fields.text, kindLabel, Str.field_inj] using h
      | _ => simp [kindLabel, Str.lit] at hlabel
  · exact fun h => h ▸ rfl

end CriterionBinding

/-- **Authority digests are computed from injective encodings**: of domain, version and fields, and of
criterion bindings. -/
theorem authority_injective :
    (Function.Injective fun input : Field × UInt64 × Fields => serialize input.1 input.2.1 input.2.2) ∧
      Function.Injective CriterionBinding.serialized := by
  constructor
  · rintro ⟨domain, version, fields⟩ ⟨domain', version', fields'⟩ h
    obtain ⟨rfl, rfl, rfl⟩ := serialize_inj.mp h
    rfl
  · intro b b' h
    obtain ⟨-, -, hfields⟩ := serialize_inj.mp h
    exact CriterionBinding.fields_inj.mp hfields

end Authority
