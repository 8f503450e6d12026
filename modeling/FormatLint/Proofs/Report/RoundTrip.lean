import FormatLint.Data.JsonFile
import FormatLint.Proofs.Json.Reading
import FormatLint.Proofs.Report.Status

/-!
The report for tools is read back as the results that it covers.
-/

namespace FormatLint

namespace Datum

/-- A required field of an object is decoded from the member of its name. -/
theorem required_fieldsOf {members : Members} (keys : (members.map (·.1)).Nodup) (name : String)
    (decode : Datum → Decoded α) :
    required (fieldsOf members) name decode =
      match members.get? name with
      | some json => decode json.datum
      | none => .error (.missingField name) := by
  rw [required, field?_fieldsOf keys]
  cases members.get? name <;> rfl

theorem record?_datum (names : List (String × Bool)) (members : Members) :
    (Json.object members).datum.record? names = .ok (fieldsOf members) :=
  fields?_datum .json members

theorem natBelow?_datum {n bound : Nat} (fits : n < bound) :
    (Json.ofNat n).datum.natBelow? bound = .ok n :=
  if_pos fits

end Datum

namespace Message

/-- Lines and columns have 32 bits. -/
def Fits (m : Message) : Prop := m.line < Nat.pow 2 32 ∧ m.column < Nat.pow 2 32

theorem decodeSeverity_code (s : Severity) :
    decodeSeverity (Json.ofNat s.code).datum = .ok s := by
  cases s <;> rfl

/-- What the JSON form of a message has, in order. -/
def members (m : Message) : Members :=
  [("ruleId", match m.ruleId with
      | some rule => .string rule
      | none => .null),
    ("severity", Json.ofNat m.severity.code),
    ("message", .string m.text),
    ("line", Json.ofNat m.line),
    ("column", Json.ofNat m.column)]
    ++ if m.fatal then [("fatal", .bool true)] else []

theorem toJson_eq_members (m : Message) : m.toJson = .object m.members := rfl

theorem nodup_members (m : Message) : (m.members.map (·.1)).Nodup := by
  unfold members
  cases m.fatal <;> simp

theorem get?_fatal (m : Message) :
    m.members.get? "fatal" = if m.fatal then some (.bool true) else none := by
  unfold members
  cases m.fatal <;> rfl

/-- A message is what is read from its JSON form. -/
theorem decode_toJson {m : Message} (fits : m.Fits) : decode m.toJson.datum = .ok m := by
  have keys := m.nodup_members
  have ruleId : Datum.fieldOr (Datum.fieldsOf m.members) "ruleId" none
      (Datum.option? (Datum.text? .json)) = .ok m.ruleId := by
    rw [Datum.fieldOr_fieldsOf keys]
    change Datum.option? _ (Json.datum (match m.ruleId with | some rule => _ | none => _)) = _
    cases m.ruleId <;> rfl
  have severity : Datum.required (Datum.fieldsOf m.members) "severity" decodeSeverity =
      .ok m.severity := by
    rw [Datum.required_fieldsOf keys]
    exact decodeSeverity_code m.severity
  have text : Datum.required (Datum.fieldsOf m.members) "message" (Datum.text? .json) =
      .ok m.text := by
    rw [Datum.required_fieldsOf keys]
    exact Datum.text?_datum .json m.text
  have line : Datum.fieldOr (Datum.fieldsOf m.members) "line" 0
      (Datum.natBelow? (Nat.pow 2 32)) = .ok m.line := by
    rw [Datum.fieldOr_fieldsOf keys]
    exact Datum.natBelow?_datum fits.1
  have column : Datum.fieldOr (Datum.fieldsOf m.members) "column" 0
      (Datum.natBelow? (Nat.pow 2 32)) = .ok m.column := by
    rw [Datum.fieldOr_fieldsOf keys]
    exact Datum.natBelow?_datum fits.2
  have fatal : Datum.fieldOr (Datum.fieldsOf m.members) "fatal" false Datum.bool? =
      .ok m.fatal := by
    rw [Datum.fieldOr_fieldsOf keys, get?_fatal]
    cases m.fatal <;> rfl
  rw [toJson_eq_members, decode, Datum.record?_datum]
  simp only [Decoded.ok_bind, ruleId, severity, text, line, column, fatal]
  rfl

theorem readable_toJson {m : Message} (fits : m.Fits) (room : Nat) :
    m.toJson.readable (room + 1) = true := by
  have severity : m.severity.code < Nat.pow 2 64 := by cases m.severity <;> decide
  have bounded {n : Nat} (small : n < Nat.pow 2 32) : n < Nat.pow 2 64 :=
    Nat.lt_trans small (by decide)
  rw [toJson_eq_members, Json.readable_object]
  intro member inside
  simp only [members, List.mem_append, List.mem_cons, List.not_mem_nil, or_false] at inside
  rcases inside with (rfl | rfl | rfl | rfl | rfl) | inside
  · cases m.ruleId <;> rfl
  · exact Json.readable_ofNat severity room
  · rfl
  · exact Json.readable_ofNat (bounded fits.1) room
  · exact Json.readable_ofNat (bounded fits.2) room
  · cases fatal : m.fatal <;> simp [fatal] at inside
    subst inside
    rfl

end Message

namespace LintResult

/-- What the JSON form of a result has, in order, when its path is text. -/
def members (r : LintResult) : Members :=
  [("filePath", .string r.file.display), ("messages", .array (r.messages.map Message.toJson))]
    ++ match r.output with
      | some text => [("output", .string text)]
      | none => []

theorem toJson?_eq_members {r : LintResult} (named : ∃ text, r.file = Path.ofString text) :
    r.toJson? = some (.object r.members) := by
  have read : r.file.text? = some r.file.display := by
    obtain ⟨text, own⟩ := named
    rw [own, Path.text?, Path.display, Path.ofString, Utf8.decode?_encode,
      Utf8.decodeLossy_encode]
  rw [toJson?, read]
  rfl

theorem nodup_members (r : LintResult) : (r.members.map (·.1)).Nodup := by
  unfold members
  cases r.output <;> simp

theorem get?_output (r : LintResult) : r.members.get? "output" = r.output.map .string := by
  unfold members
  cases r.output <;> rfl

/-- A result is what is read from its members. -/
theorem decode_members {r : LintResult} (named : ∃ text, r.file = Path.ofString text)
    (fits : ∀ m ∈ r.messages, m.Fits) : decode (Json.object r.members).datum = .ok r := by
  have keys := r.nodup_members
  have file : Path.ofString r.file.display = r.file := by
    obtain ⟨text, own⟩ := named
    rw [own]
    exact congrArg Path.ofString (Utf8.decodeLossy_encode text)
  have filePath : Datum.required (Datum.fieldsOf r.members) "filePath" (Datum.text? .json) =
      .ok r.file.display := by
    rw [Datum.required_fieldsOf keys]
    exact Datum.text?_datum .json r.file.display
  have messages : Datum.fieldOr (Datum.fieldsOf r.members) "messages" []
      (Datum.list? .json Message.decode) = .ok r.messages := by
    rw [Datum.fieldOr_fieldsOf keys]
    exact Datum.list?_datum fun m inside => Message.decode_toJson (fits m inside)
  have output : Datum.fieldOr (Datum.fieldsOf r.members) "output" none
      (Datum.option? (Datum.text? .json)) = .ok r.output :=
    Datum.fieldOr_optional keys r.get?_output fun text _ => ⟨by simp, Datum.text?_datum .json text⟩
  rw [decode, Datum.record?_datum]
  simp only [Decoded.ok_bind, filePath, messages, output, file]
  rfl

theorem readable_members {r : LintResult} (fits : ∀ m ∈ r.messages, m.Fits) (room : Nat) :
    (Json.object r.members).readable (room + 3) = true := by
  rw [Json.readable_object]
  intro member inside
  simp only [members, List.mem_append, List.mem_cons, List.not_mem_nil, or_false] at inside
  rcases inside with (rfl | rfl) | inside
  · rfl
  · rw [Json.readable_array]
    intro item listed
    obtain ⟨m, own, rfl⟩ := List.mem_map.mp listed
    exact Message.readable_toJson (fits m own) room
  · cases output : r.output <;> simp [output] at inside
    subst inside
    rfl

end LintResult

namespace Report

/-- Results are read back from the text that they are written as. -/
theorem decodeJson_results (results : List LintResult)
    (named : ∀ r ∈ results, ∃ text, r.file = Path.ofString text)
    (fits : ∀ r ∈ results, ∀ m ∈ r.messages, m.Fits) :
    ∃ json, LintResult.listToJson? results = some json ∧
      decodeJson LintResult.decodeList json.compact = .ok results := by
  have items : results.mapM LintResult.toJson? = some (results.map fun r => .object r.members) :=
    mapM_eq_pure fun r inside => LintResult.toJson?_eq_members (named r inside)
  -- the list itself, its results, their messages and what these hold
  have fine : (Json.array (results.map fun r => .object r.members)).readable 4 = true := by
    rw [Json.readable_array]
    intro item listed
    obtain ⟨r, inside, rfl⟩ := List.mem_map.mp listed
    exact LintResult.readable_members (fits r inside) 0
  have decoded : LintResult.decodeList
      (Json.array (results.map fun r => .object r.members)).datum = .ok results :=
    Datum.list?_datum fun r inside => LintResult.decode_members (named r inside) (fits r inside)
  refine ⟨.array (results.map fun r => .object r.members), ?_, ?_⟩
  · rw [LintResult.listToJson?, items]
    rfl
  · rw [decodeJson, Json.decodeText, Json.read_compact fine (by decide)]
    simp only [decoded]

/-- The report for tools is read back as the results that carry a message, in their order and with
    all that they hold. Lines and columns have 32 bits. -/
theorem json_reads_back (results : List LintResult) (shown : ∃ r ∈ results, r.messages ≠ [])
    (named : ∀ r ∈ results, r.messages ≠ [] → ∃ text, r.file = Path.ofString text)
    (fits : ∀ r ∈ results, ∀ m ∈ r.messages, m.line < Nat.pow 2 32 ∧ m.column < Nat.pow 2 32) :
    decodeJson LintResult.decodeList (Formatter.json.render results) =
      .ok (results.filter fun r => r.messages ≠ []) := by
  have covered : reported results = results.filter fun r => r.messages ≠ [] := by
    rw [reported]
    congr 1
    funext r
    cases r.messages <;> rfl
  have filled : (reported results).isEmpty = false := by
    obtain ⟨r, member, message⟩ := shown
    rw [List.isEmpty_eq_false_iff, ne_eq, reported_eq_nil_iff]
    exact fun silent => message (silent r member)
  have inside {r : LintResult} (member : r ∈ reported results) :
      r ∈ results ∧ r.messages ≠ [] := by
    simpa [reported] using member
  obtain ⟨value, written, read⟩ := decodeJson_results (reported results)
    (fun r member => named r (inside member).1 (inside member).2)
    (fun r member => fits r (inside member).1)
  rw [Formatter.render, json, ← covered, ← read]
  simp only [filled, written]
  rfl

/-- A message of a rule with the text that the file would get, a file without messages, and a
    failure that no rule stands for. -/
theorem json_reads_back_sample :
    let style : Message := ⟨some "quotes", .warning, "Use \"double\" quotes.", 3, 14, false⟩
    let fixed : LintResult := ⟨Path.ofString "a.ts", [style], some "x(\"a\");\n"⟩
    let quiet : LintResult := ⟨Path.ofString "b.ts", [], none⟩
    let broken : LintResult := ⟨Path.ofString "dir/c.ts", [Message.failure "cut\toff"], none⟩
    decodeJson LintResult.decodeList (Formatter.json.render [fixed, quiet, broken]) =
      .ok [fixed, broken] := by
  intro style fixed quiet broken
  have shown : ∃ r ∈ [fixed, quiet, broken], r.messages ≠ [] :=
    ⟨fixed, List.mem_cons_self, List.cons_ne_nil _ _⟩
  have named : ∀ r ∈ [fixed, quiet, broken], r.messages ≠ [] →
      ∃ text, r.file = Path.ofString text := by
    intro r member _
    simp only [List.mem_cons, List.not_mem_nil, or_false] at member
    rcases member with rfl | rfl | rfl <;> exact ⟨_, rfl⟩
  have fits : ∀ r ∈ [fixed, quiet, broken], ∀ m ∈ r.messages,
      m.line < Nat.pow 2 32 ∧ m.column < Nat.pow 2 32 := by
    simp [fixed, quiet, broken, style, Message.failure]
  exact json_reads_back [fixed, quiet, broken] shown named fits

end Report

end FormatLint
