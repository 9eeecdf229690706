import Offside.Config
import Offside.Proofs.JsonRoundTrip

/-!
Project files written and read again. A project file is read as it was written, whatever the names
of its files are, and it is accepted if and only if its options are. What is accepted can be written
and read again as often as one likes.
-/

namespace Offside

namespace Text.Utf16

@[simp] theorem text?_encode (text : List Char) : text? (encode text) = some text := by
  rw [text?, decode_encode]
  induction text with
  | nil => rfl
  | cons c text ih => simp [ih]

end Text.Utf16

namespace Json

@[simp] theorem text?_ofText (text : String) : (ofText text).text? = some text := by
  simp [ofText, Json.text?]

@[simp] theorem nat?_ofNat (n : Nat) : (ofNat n).nat? = some n := by
  have digits : (Nat.toDigits 10 n).all Char.isDigit = true := by
    rw [List.all_eq_true]
    exact fun _ member => Nat.isDigit_of_mem_toDigits (by decide) (by decide) member
  rw [ofNat, nat?, if_pos digits, Nat.ofDigitChars_ten_toDigits]

theorem mapM_text?_ofText (texts : List String) :
    (texts.map ofText).mapM text? = some texts := by
  induction texts with
  | nil => rfl
  | cons text texts ih => simp [ih]

end Json

namespace Config

/-- The options of a project file, if it has any, are such that they can be used. -/
def Allowed (config : Config) : Prop :=
  ∀ options ∈ config.options?, 1 ≤ options.tabWidth.toNat ∧ options.tabWidth.toNat ≤ 64

theorem members?_encode (members : List (String × Json)) :
    members? (members.map fun m => (Text.Utf16.encode m.1.toList, m.2)) = some members := by
  induction members with
  | nil => rfl
  | cons m members ih =>
    rw [members?] at ih ⊢
    rw [List.map_cons, List.mapM_cons, ih]
    simp

theorem object_eq (members : List (String × Json)) :
    Json.object members = .obj (members.map fun m => (Text.Utf16.encode m.1.toList, m.2)) := rfl

def optionsToJson (options : Options) : Json :=
  .object [("tabWidth", .ofNat options.tabWidth.toNat)]

def filesToJson (files : List String) : Json :=
  .arr (files.map .ofText)

section Written

variable (config : Config) (options : Options) (files : List String)

theorem toJson_eq :
    config.toJson = .object [("lexerOptions", (config.options?.map optionsToJson).getD .null),
      ("files", (config.files?.map filesToJson).getD .null)] := rfl

theorem tabWidth?_ofNat (width : UInt32) : tabWidth? (.ofNat width.toNat) = some width := by
  simp [tabWidth?, UInt32.toNat_lt_size]

theorem optionsOfJson?_optionsToJson : optionsOfJson? (optionsToJson options) = some options := by
  have member : member? [("tabWidth", .ofNat options.tabWidth.toNat)] "tabWidth" =
      some (some (.ofNat options.tabWidth.toNat)) := rfl
  rw [optionsToJson, object_eq, optionsOfJson?, members?_encode]
  simp [member, tabWidth?_ofNat]

theorem filesOfJson?_filesToJson : filesOfJson? (filesToJson files) = some files :=
  Json.mapM_text?_ofText files

theorem optional?_getD {α : Type} {read? : Json → Option α} {write : α → Json}
    (reads : ∀ a, read? (write a) = some a) (other : ∀ a, write a ≠ .null) (a? : Option α) :
    optional? read? ((a?.map write).getD .null) = some a? := by
  cases a? with
  | none => rfl
  | some a =>
    have some := reads a
    have present := other a
    rw [Option.map_some, Option.getD_some]
    unfold optional?
    split
    · contradiction
    · rw [some, Option.map_some]

theorem ofJson?_toJson : ofJson? config.toJson = some config := by
  have options := optional?_getD optionsOfJson?_optionsToJson (fun _ => nofun) config.options?
  have files := optional?_getD filesOfJson?_filesToJson (fun _ => nofun) config.files?
  have first (a b : Json) : member? [("lexerOptions", a), ("files", b)] "lexerOptions" =
      some (some a) := rfl
  have second (a b : Json) : member? [("lexerOptions", a), ("files", b)] "files" =
      some (some b) := rfl
  rw [toJson_eq, object_eq, ofJson?, members?_encode]
  simp [first, second, options, files]

theorem toJson_reads : Json.Reads config.toJson := by
  have options : Json.Reads ((config.options?.map optionsToJson).getD .null) := by
    cases config.options? with
    | none => exact Json.reads_null
    | some options => exact Json.reads_object (by simp [Json.reads_ofNat])
  have files : Json.Reads ((config.files?.map filesToJson).getD .null) := by
    cases config.files? with
    | none => exact Json.reads_null
    | some files => exact Json.reads_arr (by simp [Json.reads_ofText])
  rw [toJson_eq]
  exact Json.reads_object (by simp [options, files])

theorem read_print : (Json.parse? config.print.toList).bind ofJson? = some config := by
  rw [print, String.toList_ofList, Json.parse?_print config.toJson_reads, Option.bind_some,
    ofJson?_toJson]

end Written

section Checked

variable {text : List Char} {config : Config}

/-- What is read is accepted if its options are allowed, and otherwise refused because of them. -/
theorem parse_of_read (read : (Json.parse? text).bind ofJson? = some config) :
    (config.Allowed → parse text = .ok config) ∧
      (¬config.Allowed → ∃ reason, config.options.validate = .error reason ∧
        parse text = .error (.invalid reason)) := by
  obtain ⟨options?, files?⟩ := config
  cases options? with
  | none => simp [parse, read, Allowed]
  | some options =>
    have valid : Allowed ⟨some options, files?⟩ ↔ options.validate = .ok () := by
      simp [Allowed, Options.validate_eq_ok_iff]
    have same : Config.options ⟨some options, files?⟩ = options := rfl
    rw [valid, same]
    cases checked : options.validate with
    | ok => simp [parse, read, checked]
    | error reason => simp [parse, read, checked]

theorem read_of_parse (accepted : parse text = .ok config) :
    (Json.parse? text).bind ofJson? = some config ∧ config.Allowed := by
  cases read : (Json.parse? text).bind ofJson? with
  | none =>
    rw [parse, read] at accepted
    contradiction
  | some found =>
    have outcome := parse_of_read read
    by_cases allowed : found.Allowed
    · rw [outcome.1 allowed] at accepted
      cases accepted
      exact ⟨rfl, allowed⟩
    · obtain ⟨reason, _, refused⟩ := outcome.2 allowed
      rw [refused] at accepted
      contradiction

/-- Without options of its own, a project file has those of the lexer, which are allowed. -/
theorem Allowed.validate (allowed : config.Allowed) : config.options.validate = .ok () := by
  rw [Options.validate_eq_ok_iff, options]
  cases given : config.options? with
  | none => decide
  | some options => exact allowed options given

end Checked

/-- A project file that is written is read as it was if its options are allowed, and is refused
because of them if they are not, but never as malformed. All that is accepted has options that are
allowed, and is read again as it was once it is written. -/
theorem parse_print :
    (∀ config : Config, config.Allowed → parse config.print.toList = .ok config) ∧
      (∀ config : Config, ¬config.Allowed →
        ∃ reason, config.options.validate = .error reason ∧
          parse config.print.toList = .error (.invalid reason)) ∧
      ∀ (text : List Char) (config : Config), parse text = .ok config →
        config.options.validate = .ok () ∧ parse config.print.toList = .ok config := by
  refine ⟨fun config => (parse_of_read config.read_print).1,
    fun config => (parse_of_read config.read_print).2, fun text config accepted => ?_⟩
  have allowed := (read_of_parse accepted).2
  exact ⟨allowed.validate, (parse_of_read config.read_print).1 allowed⟩

theorem parse_print_unusual_names :
    parse (print ⟨some ⟨64⟩, some ["\"a\"\\b\x01\n", "é😀"]⟩).toList =
        .ok ⟨some ⟨64⟩, some ["\"a\"\\b\x01\n", "é😀"]⟩ ∧
      (∃ reason, Options.validate ⟨65⟩ = .error reason ∧
        parse (print ⟨some ⟨65⟩, none⟩).toList = .error (.invalid reason)) ∧
      parse (print ⟨some ⟨8⟩, none⟩).toList = .ok ⟨some ⟨8⟩, none⟩ := by
  obtain ⟨accepted, refused, again⟩ := parse_print
  refine ⟨accepted _ (by simp [Allowed]), refused ⟨some ⟨65⟩, none⟩ (by simp [Allowed]), ?_⟩
  have read : parse "[[], null]".toList = .ok ⟨some ⟨8⟩, none⟩ := by cbv
  exact (again _ _ read).2

end Config

end Offside
