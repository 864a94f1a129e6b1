/-
# Command bindings

A check command is bound by the digest of its program, arguments, working directory and environment, each a
field of its own.  The number of arguments is not written, so the fields of the working directory and of
the environment's size can be read as arguments (`Command.ReadsOn`), and two commands have the same fields
exactly when they are equal or one reads on into the environment of the other (`fields_inj_iff`).

A command is also bound through its text: the program and the arguments, joined by spaces.  Splitting the
text gives them back exactly when none of them holds a space (`canonicalText_guarantee`).
-/
import Faktor.AuthorityFields
import Faktor.KeepFirst
import Faktor.SplitJoin
import Faktor.TextBytes

namespace Authority

open SplitJoin

/-- The arguments of `command_binding_digest_parts`. -/
structure Command where
  program : Str
  args : List Str
  cwd : Option Str
  env : List (Str × Str)
  deriving DecidableEq

namespace Command

/-- The fields of `command_binding_digest_parts`, in the order of its loops. -/
def fields (c : Command) : Fields :=
  let argv := c.args.foldl Fields.text (Fields.text [] c.program)
  let sized := (argv.optText c.cwd).uint (.ofNat c.env.length)
  c.env.foldl (fun fields pair => (fields.text pair.1).text pair.2) sized

/-- `DOMAIN_COMMAND_BINDING`. -/
def domain : Field := (Str.lit "faktor.check-command").field

end Command

/-- `command_binding_digest_parts`. -/
def commandBindingDigestParts (hashHex : List UInt8 → String) (c : Command) : String :=
  authorityDigestLabeled hashHex Command.domain 1 c.fields

/-! ## The fields of a command -/

/-- The strings of an environment, keys and values in turn. -/
def flatPairs (env : List (Str × Str)) : List Str := env.flatMap fun pair => [pair.1, pair.2]

@[simp] theorem flatPairs_nil : flatPairs [] = [] := rfl

@[simp] theorem flatPairs_cons (pair : Str × Str) (env : List (Str × Str)) :
    flatPairs (pair :: env) = pair.1 :: pair.2 :: flatPairs env := rfl

@[simp] theorem flatPairs_append (env env' : List (Str × Str)) :
    flatPairs (env ++ env') = flatPairs env ++ flatPairs env' := List.flatMap_append

theorem length_flatPairs (env : List (Str × Str)) : (flatPairs env).length = 2 * env.length := by
  induction env with
  | nil => rfl
  | cons pair env ih =>
    rw [flatPairs_cons, List.length_cons, List.length_cons, List.length_cons, ih]
    omega

theorem flatPairs_inj {env env' : List (Str × Str)} (h : flatPairs env = flatPairs env') : env = env' := by
  induction env generalizing env' with
  | nil =>
    cases env' with
    | nil => rfl
    | cons pair env' => simp at h
  | cons pair env ih =>
    cases env' with
    | nil => simp at h
    | cons pair' env' =>
      rw [flatPairs_cons, flatPairs_cons, List.cons.injEq, List.cons.injEq] at h
      rw [ih h.2.2, Prod.ext h.1 h.2.1]

namespace Command

theorem fields_eq (c : Command) :
    c.fields = c.program.field :: (c.args.map Str.field ++ Str.optField c.cwd ::
      uintField (.ofNat c.env.length) :: (flatPairs c.env).map Str.field) := by
  have hargs : ∀ (args : List Str) (fields : Fields),
      args.foldl Fields.text fields = fields ++ args.map Str.field := by
    intro args
    induction args with
    | nil => simp
    | cons arg args ih =>
      intro fields
      rw [List.foldl_cons, ih, Fields.text, List.map_cons, List.append_assoc, List.singleton_append]
  have henv : ∀ (env : List (Str × Str)) (fields : Fields),
      env.foldl (fun fields pair => (fields.text pair.1).text pair.2) fields
        = fields ++ (flatPairs env).map Str.field := by
    intro env
    induction env with
    | nil => simp
    | cons pair env ih =>
      intro fields
      rw [List.foldl_cons, ih, flatPairs_cons]
      simp [Fields.text]
  unfold fields
  simp only
  rw [henv, hargs]
  simp [Fields.text, Fields.optText, Fields.uint]

/-- The command `c` reads on into the environment of `c'`: its last arguments are the fields that `c'`
writes for its working directory, for the size of its environment and for its first variables, and the next
variable of `c'` is what `c` writes for its own working directory and size. -/
structure ReadsOn (c c' : Command) (directory size key value : Str) (moved : List (Str × Str)) : Prop where
  program : c.program = c'.program
  args : c.args = c'.args ++ directory :: size :: flatPairs moved
  env : c'.env = moved ++ (key, value) :: c.env
  directory : directory.field = Str.optField c'.cwd
  size : size.field = uintField (.ofNat c'.env.length)
  key : key.field = Str.optField c.cwd
  value : value.field = uintField (.ofNat c.env.length)

/-- Some reading. -/
def Reads (c c' : Command) : Prop := ∃ directory size key value moved, ReadsOn c c' directory size key value moved

theorem map_field_inj {l l' : List Str} (h : l.map Str.field = l'.map Str.field) : l = l' :=
  List.map_injective_iff.mpr (fun _ _ => Str.field_inj.mp) h

/-- The fields of an environment with the directory and the size of another command inside. -/
theorem exists_pairs {env env' : List (Str × Str)} {moved : List Field} {directory size : Field}
    (h : (flatPairs env').map Str.field
      = moved ++ directory :: size :: (flatPairs env).map Str.field) :
    ∃ pairs key value, env' = pairs ++ (key, value) :: env ∧ moved = (flatPairs pairs).map Str.field ∧
      key.field = directory ∧ value.field = size := by
  induction env' generalizing moved with
  | nil => simp at h
  | cons pair env' ih =>
    rw [flatPairs_cons, List.map_cons, List.map_cons] at h
    match moved with
    | [] =>
      rw [List.nil_append, List.cons.injEq, List.cons.injEq] at h
      obtain ⟨hkey, hvalue, hrest⟩ := h
      refine ⟨[], pair.1, pair.2, ?_, rfl, hkey, hvalue⟩
      rw [flatPairs_inj (map_field_inj hrest)]
      rfl
    | [a] =>
      -- the pairs would be split in the middle
      have hlength := congrArg List.length h
      simp only [List.length_cons, List.length_map, length_flatPairs, List.length_append,
        List.length_nil] at hlength
      omega
    | a :: b :: moved =>
      rw [List.cons_append, List.cons_append, List.cons.injEq, List.cons.injEq] at h
      obtain ⟨hkey, hvalue, hrest⟩ := h
      obtain ⟨pairs, key, value, henv, hmoved, hdirectory, hsize⟩ := ih hrest
      refine ⟨pair :: pairs, key, value, ?_, ?_, hdirectory, hsize⟩
      · rw [henv, List.cons_append]
      · rw [flatPairs_cons, List.map_cons, List.map_cons, hkey, hvalue, hmoved]

/-- One command has more arguments than another with the same fields. -/
theorem eq_or_reads_of_append {c c' : Command} {more : List Field} (hprogram : c.program = c'.program)
    (hargs : c.args.map Str.field = c'.args.map Str.field ++ more)
    (h : Str.optField c'.cwd :: uintField (.ofNat c'.env.length) :: (flatPairs c'.env).map Str.field
      = more ++ Str.optField c.cwd :: uintField (.ofNat c.env.length) ::
        (flatPairs c.env).map Str.field) :
    c = c' ∨ Reads c c' := by
  match more with
  | [] =>
    left
    rw [List.nil_append, List.cons.injEq, List.cons.injEq] at h
    obtain ⟨hcwd, -, henv⟩ := h
    rw [List.append_nil] at hargs
    have hargs := map_field_inj hargs
    have hcwd := Str.optField_inj.mp hcwd
    have henv := flatPairs_inj (map_field_inj henv)
    obtain ⟨program, args, cwd, env⟩ := c
    obtain ⟨program', args', cwd', env'⟩ := c'
    cases hprogram
    cases hargs
    cases hcwd
    cases henv
    rfl
  | [a] =>
    have hlength := congrArg List.length h
    simp only [List.length_cons, List.length_map, length_flatPairs, List.length_append,
      List.length_nil] at hlength
    omega
  | a :: b :: moved =>
    right
    rw [List.cons_append, List.cons_append, List.cons.injEq, List.cons.injEq] at h
    obtain ⟨hdirectory, hsize, hrest⟩ := h
    obtain ⟨pairs, key, value, henv, hmoved, hkey, hvalue⟩ := exists_pairs hrest
    obtain ⟨front, back, hsplit, hfront, hback⟩ := List.map_eq_append_iff.mp hargs
    obtain ⟨directory, rest, hback', hfirst, hmore⟩ := List.map_eq_cons_iff.mp hback
    obtain ⟨size, last, hrest', hsecond, hlast⟩ := List.map_eq_cons_iff.mp hmore
    rw [hmoved] at hlast
    refine ⟨directory, size, key, value, pairs, hprogram, ?_, henv, hfirst.trans hdirectory.symm,
      hsecond.trans hsize.symm, hkey, hvalue⟩
    rw [hsplit, hback', hrest', map_field_inj hfront, map_field_inj hlast]

/-- **Commands with the same fields** are equal, or one reads on into the other's environment. -/
theorem eq_or_reads {c c' : Command} (h : c.fields = c'.fields) : c = c' ∨ Reads c c' ∨ Reads c' c := by
  rw [fields_eq, fields_eq, List.cons.injEq] at h
  obtain ⟨hprogram, h⟩ := h
  have hprogram := Str.field_inj.mp hprogram
  rcases List.append_eq_append_iff.mp h with ⟨more, hargs, hrest⟩ | ⟨more, hargs, hrest⟩
  · rcases eq_or_reads_of_append hprogram.symm hargs hrest with heq | hreads
    · exact .inl heq.symm
    · exact .inr (.inr hreads)
  · rcases eq_or_reads_of_append hprogram hargs hrest with heq | hreads
    · exact .inl heq
    · exact .inr (.inl hreads)

/-- A command has the fields of one that it reads on into, and more arguments. -/
theorem Reads.fields_eq {c c' : Command} (h : Reads c c') : c.fields = c'.fields := by
  obtain ⟨directory, size, key, value, moved, hprogram, hargs, henv, hdirectory, hsize, hkey, hvalue⟩ := h
  rw [Command.fields_eq, Command.fields_eq, hprogram, hargs, ← hdirectory, ← hsize, ← hkey, ← hvalue, henv]
  simp

/-- Reading on takes variables away. -/
theorem Reads.length_env_lt {c c' : Command} (h : Reads c c') : c.env.length < c'.env.length := by
  obtain ⟨directory, size, key, value, moved, hreads⟩ := h
  rw [hreads.env, List.length_append, List.length_cons]
  omega

theorem Reads.ne {c c' : Command} (h : Reads c c') : c ≠ c' := by
  rintro rfl
  exact lt_irrefl _ h.length_env_lt

/-- **Which commands the fields tell apart.**  All of the pairs but those of which one reads on into the
environment of the other. -/
theorem fields_inj_iff (c c' : Command) :
    (c.fields = c'.fields → c = c') ↔ ¬ Reads c c' ∧ ¬ Reads c' c := by
  constructor
  · intro h
    refine ⟨fun hreads => hreads.ne (h hreads.fields_eq), fun hreads => ?_⟩
    exact hreads.ne (h hreads.fields_eq.symm).symm
  · rintro ⟨hnot, hnot'⟩ h
    rcases eq_or_reads h with heq | hreads | hreads
    · exact heq
    · exact absurd hreads hnot
    · exact absurd hreads hnot'

/-- Two arguments that look like no working directory and one variable. -/
theorem fields_not_injective :
    let c : Command :=
      ⟨.lit "p", [.lit "\x00", .lit "\x01\x00\x00\x00\x00\x00\x00\x00"], none, []⟩
    let c' : Command :=
      ⟨.lit "p", [], none, [(.lit "\x00", .lit "\x00\x00\x00\x00\x00\x00\x00\x00")]⟩
    c.fields = c'.fields ∧ c ≠ c' := by
  decide +kernel

end Command

/-! ## The text of a command -/

/-- `canonical_command_text`; there is none when the text does not fit in memory. -/
def canonicalCommandText (program : Str) (args : List Str) : Option Str :=
  let text := args.foldl (fun out arg => out ++ " " ++ arg.value) program.value
  if h : text.utf8ByteSize < 2 ^ 63 then some ⟨text, h⟩ else none

/-- A part of a string. -/
def Str.part (s : Str) (piece : List Char) (h : piece.Sublist s.value.toList) : Str where
  value := String.ofList piece
  bounded := by
    have hle : (String.ofList piece).utf8ByteSize ≤ s.value.utf8ByteSize := by
      rw [TextBytes.utf8ByteSize_eq_byteLen, TextBytes.utf8ByteSize_eq_byteLen, String.toList_ofList]
      exact (h.map Char.utf8Size).sum_le_sum fun _ _ => Nat.zero_le _
    exact lt_of_le_of_lt hle s.bounded

/-- `split_canonical_command`: the first space ends the program, every further one an argument. -/
def splitCanonicalCommand (command : Str) : Str × List Str :=
  let chars := command.value.toList
  if ' ' ∈ chars then
    (command.part (chars.takeWhile (· ≠ ' ')) (List.takeWhile_sublist _),
      (((chars.dropWhile (· ≠ ' ')).tail).splitOn ' ').attach.map fun piece =>
        command.part piece.1 ((sublist_of_mem_splitOn piece.2).trans
          ((List.tail_sublist _).trans (List.dropWhile_sublist _))))
  else (command, [])

/-- `command_binding_digest`. -/
def commandBindingDigest (hashHex : List UInt8 → String) (command : Str) : String :=
  let (program, args) := splitCanonicalCommand command
  commandBindingDigestParts hashHex ⟨program, args, none, []⟩

/-- No string of the command holds a space. -/
def SpaceFree (program : Str) (args : List Str) : Prop :=
  ' ' ∉ program.value.toList ∧ ∀ arg ∈ args, ' ' ∉ arg.value.toList

/-- The characters of a program and its arguments. -/
def pieces (program : Str) (args : List Str) : List (List Char) :=
  program.value.toList :: args.map fun arg => arg.value.toList

theorem Str.toList_inj {s t : Str} (h : s.value.toList = t.value.toList) : s = t := by
  have hvalue : s.value = t.value := String.toList_inj.mp h
  obtain ⟨a, ha⟩ := s
  obtain ⟨b, hb⟩ := t
  cases hvalue
  rfl

variable {args : List Str}

theorem pieces_inj {program program' : Str} {args' : List Str}
    (h : pieces program args = pieces program' args') : (program, args) = (program', args') := by
  obtain ⟨hprogram, hargs⟩ := List.cons.inj h
  rw [Str.toList_inj hprogram, List.map_injective_iff.mpr (fun s t => Str.toList_inj) hargs]

/-- The canonical text joins the strings by spaces. -/
theorem toList_canonicalCommandText {program text : Str}
    (h : canonicalCommandText program args = some text) :
    text.value.toList = [' '].intercalate (pieces program args) := by
  have hjoin : ∀ (args : List Str) (out : String),
      (args.foldl (fun out arg => out ++ " " ++ arg.value) out).toList
        = [' '].intercalate (out.toList :: args.map fun arg => arg.value.toList) := by
    intro args
    induction args with
    | nil =>
      intro out
      rw [List.map_nil, List.intercalate_singleton, List.foldl_nil]
    | cons arg args ih =>
      intro out
      rw [List.foldl_cons, ih, List.map_cons, String.toList_append, String.toList_append,
        List.intercalate_cons_of_ne_nil (List.cons_ne_nil _ _)]
      cases args with
      | nil => rw [List.map_nil, List.intercalate_singleton, List.intercalate_singleton]; rfl
      | cons next args =>
        rw [List.map_cons, List.intercalate_cons_of_ne_nil (List.cons_ne_nil _ _),
          List.intercalate_cons_of_ne_nil (List.cons_ne_nil _ _)]
        simp only [List.append_assoc]
        rfl
  unfold canonicalCommandText at h
  simp only at h
  split_ifs at h
  rw [← Option.some.inj h]
  exact hjoin args program.value

/-- The split of a text is its pieces between spaces. -/
theorem pieces_splitCanonicalCommand (command : Str) :
    pieces (splitCanonicalCommand command).1 (splitCanonicalCommand command).2
      = command.value.toList.splitOn ' ' := by
  unfold splitCanonicalCommand
  simp only
  by_cases hspace : ' ' ∈ command.value.toList
  · rw [if_pos hspace]
    have hsplit : command.value.toList = command.value.toList.takeWhile (· ≠ ' ') ++
        ' ' :: (command.value.toList.dropWhile (· ≠ ' ')).tail := by
      obtain ⟨rest, hrest⟩ := exists_dropWhile_ne_eq_cons hspace
      rw [hrest, List.tail_cons, ← hrest, List.takeWhile_append_dropWhile]
    conv_rhs => rw [hsplit, List.splitOn_append_cons_self_of_not_mem notMem_takeWhile_ne]
    simp [pieces, Str.part, Function.comp_def]
  · rw [if_neg hspace, List.splitOn_eq_singleton hspace]
    rfl

/-- **Splitting gives the command back** exactly when no string of it holds a space. -/
theorem splitCanonicalCommand_eq_iff {program text : Str}
    (h : canonicalCommandText program args = some text) :
    splitCanonicalCommand text = (program, args) ↔ SpaceFree program args := by
  have hpieces := pieces_splitCanonicalCommand text
  rw [toList_canonicalCommandText h] at hpieces
  have hfree : (∀ piece ∈ pieces program args, ' ' ∉ piece) ↔ SpaceFree program args := by
    simp [pieces, SpaceFree]
  have hne : pieces program args ≠ [] := List.cons_ne_nil _ _
  rw [← hfree, ← splitOn_intercalate_eq_iff hne, ← hpieces]
  constructor
  · intro hsplit
    rw [hsplit]
  · exact pieces_inj

theorem Command.fields_inj_of_no_env {c c' : Command} (henv : c.env = []) (henv' : c'.env = [])
    (h : c.fields = c'.fields) : c = c' := by
  rcases Command.eq_or_reads h with heq | hreads | hreads
  · exact heq
  · have := hreads.length_env_lt
    rw [henv, henv'] at this
    exact absurd this (lt_irrefl _)
  · have := hreads.length_env_lt
    rw [henv, henv'] at this
    exact absurd this (lt_irrefl _)

/-- **The two ways of binding a command** agree, whatever the hash function, exactly when neither the
program nor an argument holds a space; only then does splitting the text give them back. -/
theorem canonicalText_guarantee (program : Str) (args : List Str) (text : Str)
    (h : canonicalCommandText program args = some text) :
    ((∀ hashHex, commandBindingDigest hashHex text
        = commandBindingDigestParts hashHex ⟨program, args, none, []⟩) ↔ SpaceFree program args) ∧
      (splitCanonicalCommand text = (program, args) ↔ SpaceFree program args) := by
  have hsplit := splitCanonicalCommand_eq_iff h
  refine ⟨?_, hsplit⟩
  rw [← hsplit]
  constructor
  · intro hdigest
    -- a hash function that tells the bytes of the split text from all others
    let split : Command := ⟨(splitCanonicalCommand text).1, (splitCanonicalCommand text).2, none, []⟩
    have hbytes := hdigest fun bytes =>
      if bytes = serialize Command.domain 1 split.fields then "0" else "1"
    have hequal : serialize Command.domain 1 (Command.fields ⟨program, args, none, []⟩)
        = serialize Command.domain 1 split.fields := by
      by_contra hne
      simp [commandBindingDigest, commandBindingDigestParts, authorityDigestLabeled, split, hne] at hbytes
    obtain ⟨-, -, hfields⟩ := serialize_inj.mp hequal
    have hcommand := Command.fields_inj_of_no_env rfl rfl hfields
    have hprogram : program = (splitCanonicalCommand text).1 := congrArg Command.program hcommand
    have hargs : args = (splitCanonicalCommand text).2 := congrArg Command.args hcommand
    exact Prod.ext hprogram.symm hargs.symm
  · intro heq hashHex
    rw [commandBindingDigest, heq]

/-- A command without spaces. -/
theorem canonicalText_guarantee_cargo :
    splitCanonicalCommand (.lit "cargo test --all") = (.lit "cargo", [.lit "test", .lit "--all"]) := by
  have hfree : SpaceFree (.lit "cargo") [.lit "test", .lit "--all"] :=
    ⟨by decide +kernel, by decide +kernel⟩
  exact (canonicalText_guarantee (.lit "cargo") [.lit "test", .lit "--all"] (.lit "cargo test --all")
    (by decide +kernel)).2.mpr hfree

/-- An argument with a space comes back as two arguments, and other bytes are hashed. -/
theorem spaced_argument_splits :
    let program := Str.lit "p"
    let args := [Str.lit "a b"]
    let text := Str.lit "p a b"
    canonicalCommandText program args = some text ∧ splitCanonicalCommand text ≠ (program, args) ∧
      serialize Command.domain 1
          (Command.fields ⟨(splitCanonicalCommand text).1, (splitCanonicalCommand text).2, none, []⟩)
        ≠ serialize Command.domain 1 (Command.fields ⟨program, args, none, []⟩) := by
  decide +kernel

end Authority
