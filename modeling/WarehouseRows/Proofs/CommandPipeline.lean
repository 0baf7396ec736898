import WarehouseRows.Command.Run
import WarehouseRows.Proofs.ListedTables

/-!
# Commands one after another

What a command prints is a document, and the next command reads it. A table that is listed in a
file has a schema, the schema has a table again, and this table is the listed one in normal form.
So whoever goes the whole way from a listing to a listing gets the fingerprint and the record
schema of the table that they began with.

## Main definitions

* `Document.IsCopyOf`: the files that hold a text.
* `Surroundings.Invokes`: the command lines that name a command and a file, and no settings.
* `Outcome.Prints`: the runs that succeed with a text.
-/

namespace WarehouseRows

/-! ## Documents -/

namespace Document

/-- Whether a file holds a text, as it was printed: alone or with a line break behind it. -/
def IsCopyOf (content text : String) : Prop :=
  content = text ∨ content = text ++ "\n"

/-- Whether a file with a content holds a document. -/
def Holds (content : String) (j : Json) : Prop :=
  Json.parse (String.ofList (Utf8.dropMark content.toList)) = .ok j

theorem parse_eq_ok {label content : String} {j : Json} :
    parse label content = .ok j ↔ Holds content j :=
  Outcome.mapError_eq_ok

theorem dropMark_indentedThen (members : List (String × Json)) (ending : List Char) :
    Utf8.dropMark (Json.indentedThen 0 (.object members) ending) =
      Json.indentedThen 0 (.object members) ending := by
  cases members <;> rfl

/-- An object is read from the files that hold its text. -/
theorem holds_of_isCopyOf {members : List (String × Json)} {content : String}
    (htextual : (Json.object members).IsTextual)
    (h : IsCopyOf content (Json.object members).indented) : Holds content (.object members) := by
  obtain ⟨ending, hending, hcontent⟩ : ∃ ending, (∀ b ∈ ending, Json.isJsonBlank b = true) ∧
      content.toList = Json.indentedThen 0 (.object members) ending := by
    rcases h with rfl | rfl
    · exact ⟨[], fun b hb => absurd hb List.not_mem_nil, String.toList_ofList⟩
    · refine ⟨['\n'], fun b hb => List.mem_singleton.mp hb ▸ rfl, ?_⟩
      rw [String.toList_append, Json.indented, String.toList_ofList]
      exact (Json.indentedThen_append (.object members) 0 [] ['\n']).symm
  rw [Holds, hcontent, dropMark_indentedThen]
  exact Json.parse_indented htextual hending

end Document

/-! ## Requests -/

namespace Journal

variable {journal : Journal} {options : ConverterOptions} {request : Request}

theorem lines_debug (h : journal.logger.level = .info) (message : String) (fields : Members Value) :
    journal.lines .debug message fields = .ok [] := by
  have hadmits : LogLevel.admits .info .debug = false := rfl
  rw [lines, Logger.line?, h, hadmits]
  rfl

theorem refuse_ne_ok {α : Type} (failure : Failure) (a : α) :
    (journal.refuse request failure).1 ≠ .ok a := by
  rw [refuse]
  split <;> simp

/-- A journal of the usual level does not change the answer to a request that can be summed up. -/
theorem answer_eq_ok (hlevel : journal.logger.level = .info)
    (hsummary : ∃ members, request.summary = .ok members) {a : request.Answer} :
    (journal.answer options request).1 = .ok a ↔ request.answer options = .ok a := by
  obtain ⟨members, hmembers⟩ := hsummary
  rw [answer]
  cases request.answer options with
  | error failure => simp [note, refuse_ne_ok]
  | ok found =>
    have hlines : (journal.fields request).bind (journal.lines .debug "Converter call succeeded") =
        .ok [] := by
      rw [fields, hmembers]
      exact lines_debug hlevel _ _
    simp only [note, hlines]

theorem map_answer_eq_ok (request : Request) (hlevel : journal.logger.level = .info)
    (hsummary : ∃ members, request.summary = .ok members) {f : request.Answer → String}
    {text : String} :
    (journal.answer options request).1.map f = .ok text ↔
      ∃ a, request.answer options = .ok a ∧ f a = text := by
  rw [Outcome.map_eq_ok]
  simp only [answer_eq_ok hlevel hsummary]

end Journal

/-! ## Commands -/

namespace Command

variable {journal : Journal} {j : Json} {text : String}

theorem columns_eq_ok {columns : TableSchema} :
    Command.columns j = .ok columns ↔ TableSchema.ofJson j = .ok columns :=
  Outcome.mapError_eq_ok

theorem schemaOf_eq_ok {schema : Schema} :
    schemaOf j = .ok schema ↔ Schema.ofDefinition j = .ok (.ok schema) := by
  rw [schemaOf]
  cases Schema.ofDefinition j with
  | error issues => simp
  | ok outcome => simp

theorem perform_schema (hlevel : journal.logger.level = .info) :
    (perform journal { } .schema j).1 = .ok text ↔
      ∃ columns schema, TableSchema.ofJson j = .ok columns ∧
        TableSchema.toSchema { } columns = .ok schema ∧ schema.toDefinition.indented = text := by
  rw [perform]
  cases hread : Command.columns j with
  | error failure => simp [← columns_eq_ok, hread]
  | ok read =>
    simp only [← columns_eq_ok, hread, Except.ok.injEq]
    refine (Journal.map_answer_eq_ok (.fromTableSchema read) hlevel ⟨_, rfl⟩).trans ?_
    simp [Request.answer]

theorem perform_tableSchema (hlevel : journal.logger.level = .info) :
    (perform journal { } .tableSchema j).1 = .ok text ↔
      ∃ schema columns, Schema.ofDefinition j = .ok (.ok schema) ∧
        schema.toTable = .ok columns ∧ (schema.tableDocument columns).indented = text := by
  rw [perform]
  cases hread : schemaOf j with
  | error failure => simp [← schemaOf_eq_ok, hread]
  | ok read =>
    simp only [← schemaOf_eq_ok, hread, Except.ok.injEq]
    refine (Journal.map_answer_eq_ok (.toTableSchema read) hlevel ⟨_, rfl⟩).trans ?_
    simp [Request.answer]

theorem perform_fingerprint (hlevel : journal.logger.level = .info) :
    (perform journal { } .fingerprint j).1 = .ok text ↔
      ∃ columns descriptor, TableSchema.ofJson j = .ok columns ∧
        columns.descriptor = .ok descriptor ∧ toString descriptor.fingerprint = text := by
  rw [perform]
  cases hread : Command.columns j with
  | error failure => simp [← columns_eq_ok, hread]
  | ok read =>
    simp only [← columns_eq_ok, hread, Except.ok.injEq]
    refine (Journal.map_answer_eq_ok (.fingerprint read) hlevel ⟨_, rfl⟩).trans ?_
    simp only [Request.answer, Outcome.mapError_eq_ok, Outcome.map_eq_ok]
    grind

theorem perform_avroSchema (hlevel : journal.logger.level = .info) {name : String}
    {space : Option String} :
    (perform journal { } (.avroSchema name space) j).1 = .ok text ↔
      ∃ columns record, TableSchema.ofJson j = .ok columns ∧
        columns.toAvro name space none = .ok record ∧ record.toJson.indented = text := by
  rw [perform]
  cases hread : Command.columns j with
  | error failure => simp [← columns_eq_ok, hread]
  | ok read =>
    simp only [← columns_eq_ok, hread, Except.ok.injEq]
    refine (Journal.map_answer_eq_ok (.toAvroSchema name read space) hlevel ⟨_, rfl⟩).trans ?_
    simp [Request.answer]

end Command

/-! ## Runs -/

/-- Whether a run succeeds with a text. -/
def Outcome.Prints (outcome : Outcome) (text : String) : Prop :=
  outcome.code = 0 ∧ outcome.output = [text]

/-- Whether a command line names a command and a file with a content, and no settings; the last
two arguments are the options for record schemas. -/
def Surroundings.Invokes (s : Surroundings) (words : List String) (command content name : String)
    (space : Option String) : Prop :=
  Arguments.asksForHelp words = false ∧
    ∃ input, Arguments.read words = .ok (some ⟨command, input, none, name, space⟩) ∧
      s.contentOf input = .ok content

section Run

variable {s : Surroundings} {words : List String} {word content name text : String}
  {space : Option String} {command : Command}

theorem run_eq (h : s.Invokes words word content name space)
    (hcommand : Command.ofName? word name space = some command) :
    ∃ input, s.contentOf input = .ok content ∧
      run s words = runCommand s (s.logger { } word) { } command input := by
  obtain ⟨hhelp, input, hread, hcontent⟩ := h
  refine ⟨input, hcontent, ?_⟩
  rw [run, hhelp, hread]
  simp only [Bool.false_eq_true, if_false, Surroundings.settings, hcommand]
  rfl

/-- A run prints what its command gives for the document in its file. -/
theorem run_prints_iff (h : s.Invokes words word content name space)
    (hcommand : Command.ofName? word name space = some command) :
    (run s words).Prints text ↔ ∃ j, Document.Holds content j ∧
      (command.perform (s.journal (s.logger { } word)) { } j).1 = .ok text := by
  obtain ⟨input, hcontent, hrun⟩ := run_eq h hcommand
  rw [hrun, runCommand, Surroundings.document, hcontent, Outcome.ok_bind]
  simp only [← @Document.parse_eq_ok input]
  cases Document.parse input content with
  | error failure => simp [Outcome.Prints, Outcome.failed]
  | ok j =>
    cases hperform : command.perform (s.journal (s.logger { } word)) { } j with
    | mk answer lines => cases answer <;> simp [Outcome.Prints, Outcome.failed, hperform]

/-- A run that succeeds prints a text. -/
theorem exists_prints_of_code (h : s.Invokes words word content name space)
    (hcommand : Command.ofName? word name space = some command)
    (hcode : (run s words).code = 0) : ∃ text, (run s words).Prints text := by
  obtain ⟨input, _, hrun⟩ := run_eq h hcommand
  rw [hrun, runCommand] at hcode ⊢
  cases hdocument : s.document input with
  | error failure => simp [hdocument, Outcome.failed] at hcode
  | ok j =>
    cases hperform : command.perform (s.journal (s.logger { } word)) { } j with
    | mk answer lines =>
      cases answer with
      | error failure => simp [hdocument, hperform, Outcome.failed] at hcode
      | ok text => exact ⟨text, by simp [Outcome.Prints, hperform]⟩

end Run

/-! ## The pipeline -/

/-- A file for which the canonical schema is printed has one, and the table of this schema is
printed for the schema. The commands that read tables print the same for that table as for the
file. -/
theorem run_pipeline_of_schema {s : Surroundings} {words : List String} {content name : String}
    {space : Option String} (h : s.Invokes words "schema" content name space)
    (hcode : (run s words).code = 0) :
    ∃ definition table number : String, (run s words).Prints definition ∧
      (∀ s words file name space, Document.IsCopyOf file definition →
        Surroundings.Invokes s words "table-schema" file name space →
          (run s words).Prints table) ∧
      (∀ s words file name space, file = content ∨ Document.IsCopyOf file table →
        Surroundings.Invokes s words "fingerprint" file name space →
          (run s words).Prints number) ∧
      ∀ name space, ∃ record : String, ∀ s words file,
        file = content ∨ Document.IsCopyOf file table →
          Surroundings.Invokes s words "avro-schema" file name space →
            (run s words).Prints record := by
  obtain ⟨definition, hprints⟩ := exists_prints_of_code h rfl hcode
  obtain ⟨j, hcontent, hperform⟩ := (run_prints_iff h rfl).mp hprints
  obtain ⟨columns, schema, hcolumns, hschema, rfl⟩ := (Command.perform_schema rfl).mp hperform
  have hlisted := TableSchema.isListed_of_ofJson hcolumns
  have hdefinable := TableSchema.isDefinable_of_toSchema hlisted hschema
  -- the second listing is the first in normal form, and is read as it was written
  have htable : schema.toTable = .ok columns.normal := by
    obtain ⟨fields, hfields, hcreated⟩ := Outcome.bind_eq_ok.mp hschema
    obtain ⟨rfl, _⟩ := Schema.create_eq_ok.mp hcreated
    exact Column.toColumns_of_toFields (fun _ _ _ htype => Column.toColumn_of_baseType htype)
      hfields
  have hback := TableSchema.ofJson_tableDocument hdefinable htable
  obtain ⟨descriptor, hdescriptor⟩ := TableSchema.exists_descriptor hschema
  -- a file with either listing holds a document whose columns have the descriptor of the first
  have hlistings (file : String) (hfile : file = content ∨
      Document.IsCopyOf file (schema.tableDocument columns.normal).indented) :
      ∃ j listing, Document.Holds file j ∧ TableSchema.ofJson j = .ok listing ∧
        listing.descriptor = columns.descriptor ∧
        ∀ name space, listing.toAvro name space none = columns.toAvro name space none := by
    rcases hfile with rfl | hcopy
    · exact ⟨j, columns, hcontent, hcolumns, rfl, fun _ _ => rfl⟩
    · have htextual := schema.isTextual_tableDocument columns.normal
      have hholds := Document.holds_of_isCopyOf htextual hcopy
      exact ⟨_, columns.normal, hholds, hback, TableSchema.descriptor_normal hlisted,
        fun name space => TableSchema.toAvro_normal columns name space none⟩
  refine ⟨schema.toDefinition.indented, (schema.tableDocument columns.normal).indented,
    toString descriptor.fingerprint, hprints, ?_, ?_, ?_⟩
  · intro s words file name space hcopy hinvokes
    have hholds := Document.holds_of_isCopyOf schema.isTextual_toDefinition hcopy
    exact (run_prints_iff hinvokes rfl).mpr ⟨_, hholds, (Command.perform_tableSchema rfl).mpr
      ⟨schema, columns.normal, Schema.ofDefinition_toDefinition hdefinable, htable, rfl⟩⟩
  · intro s words file name space hfile hinvokes
    obtain ⟨j, listing, hholds, hread, hsame, _⟩ := hlistings file hfile
    exact (run_prints_iff hinvokes rfl).mpr ⟨j, hholds, (Command.perform_fingerprint rfl).mpr
      ⟨listing, descriptor, hread, hsame.trans hdescriptor, rfl⟩⟩
  · intro name space
    obtain ⟨record, hrecord⟩ := TableSchema.exists_record hschema name space none
    refine ⟨record.toJson.indented, fun s words file hfile hinvokes => ?_⟩
    obtain ⟨j, listing, hholds, hread, _, hsame⟩ := hlistings file hfile
    exact (run_prints_iff hinvokes rfl).mpr ⟨j, hholds, (Command.perform_avroSchema rfl).mpr
      ⟨listing, record, hread, (hsame name space).trans hrecord, rfl⟩⟩

/-- What a run finds around it where every file has one content. -/
def Surroundings.ofContent (content : String) : Surroundings :=
  { contentOf := fun _ => .ok content, time := "2024-01-01T00:00:00.000Z", runId := "run" }

/-- A listing with legacy keywords: a time, and visits with the number of a page. -/
def TableSchema.visits : TableSchema :=
  [⟨"at", some "TIMESTAMP", some .nullable, none, none⟩,
    ⟨"visits", some "RECORD", some .repeated,
      some [⟨"page", some "INTEGER", some .required, none, some "number"⟩], none⟩]

theorem TableSchema.isTextual_visits : visits.toJson.IsTextual := by
  have hat : (Column.document "at" (some "TIMESTAMP") none (some .nullable) none false).IsTextual :=
    Column.isTextual_document _ false (by simp)
  have hpage : (Column.document "page" (some "INTEGER") (some "number") (some .required) none
      false).IsTextual := Column.isTextual_document _ false (by simp)
  have hvisits : (Column.document "visits" (some "RECORD") none (some .repeated)
      (some [Column.document "page" (some "INTEGER") (some "number") (some .required) none false])
      false).IsTextual :=
    Column.isTextual_document _ false fun _ hitems => Option.some.inj hitems ▸ ⟨hpage, trivial⟩
  refine Json.isTextual_object ["fields"] (by decide) (List.Sublist.refl _) fun m hm => ?_
  obtain rfl := List.mem_singleton.mp hm
  exact ⟨hat, hvisits, trivial⟩

theorem TableSchema.ofJson_visits : TableSchema.ofJson visits.toJson = .ok visits := by
  have hat : Column.ofJson
      (Column.document "at" (some "TIMESTAMP") none (some .nullable) none false) =
      .valid ⟨"at", some "TIMESTAMP", some .nullable, none, none⟩ :=
    Column.ofJson_document false (by decide) ⟨by decide, Text.toUpper_eq_self (by decide)⟩
      (Column.Mode.isWord_some (by decide)) rfl
  have hpage : Column.ofJson
      (Column.document "page" (some "INTEGER") (some "number") (some .required) none false) =
      .valid ⟨"page", some "INTEGER", some .required, none, some "number"⟩ :=
    Column.ofJson_document false (by decide) ⟨by decide, Text.toUpper_eq_self (by decide)⟩
      (Column.Mode.isWord_some (by decide)) rfl
  have hvisits : Column.ofJson (Column.document "visits" (some "RECORD") none (some .repeated)
      (some [Column.document "page" (some "INTEGER") (some "number") (some .required) none false])
      false) =
      .valid ⟨"visits", some "RECORD", some .repeated,
        some [⟨"page", some "INTEGER", some .required, none, some "number"⟩], none⟩ :=
    Column.ofJson_document false (by decide) ⟨by decide, Text.toUpper_eq_self (by decide)⟩
      (Column.Mode.isWord_some (by decide)) (congrArg (fun c => some [c]) hpage)
  refine ofJson_eq_ok.mpr (checkJson_eq_valid.mpr ⟨_, Or.inr ⟨_, rfl, rfl⟩, ?_⟩)
  exact congrArg₂ (fun c d => [c, d]) hat hvisits

/-- A listing in a file, its schema in a second and the table of this schema in a third. -/
theorem run_pipeline_of_schema_visits :
    ∃ definition table number record : String,
      (run (.ofContent TableSchema.visits.toJson.indented) ["schema", "a.json"]).Prints
        definition ∧
      (run (.ofContent definition) ["table-schema", "b.json"]).Prints table ∧
      (run (.ofContent TableSchema.visits.toJson.indented) ["fingerprint", "a.json"]).Prints
        number ∧
      (run (.ofContent table) ["fingerprint", "c.json"]).Prints number ∧
      (run (.ofContent TableSchema.visits.toJson.indented)
        ["avro-schema", "a.json", "--name", "Visits"]).Prints record ∧
      (run (.ofContent (table ++ "\n")) ["--name", "Visits", "avro-schema", "c.json"]).Prints
        record := by
  obtain ⟨schema, hschema⟩ : ∃ schema, TableSchema.visits.toSchema { } = .ok schema := ⟨_, rfl⟩
  have hinvokes : (Surroundings.ofContent TableSchema.visits.toJson.indented).Invokes
      ["schema", "a.json"] "schema" TableSchema.visits.toJson.indented "root" none :=
    ⟨by decide, _, rfl, rfl⟩
  have hholds := Document.holds_of_isCopyOf TableSchema.isTextual_visits (Or.inl rfl)
  have hprints := (run_prints_iff hinvokes rfl).mpr ⟨_, hholds, (Command.perform_schema rfl).mpr
    ⟨_, schema, TableSchema.ofJson_visits, hschema, rfl⟩⟩
  obtain ⟨definition, table, number, hdefinition, htable, hnumber, hrecords⟩ :=
    run_pipeline_of_schema hinvokes hprints.1
  obtain ⟨record, hrecord⟩ := hrecords "Visits" none
  refine ⟨definition, table, number, record, hdefinition, ?_, ?_, ?_, ?_, ?_⟩
  · exact htable _ _ definition "root" none (Or.inl rfl) ⟨by decide, _, rfl, rfl⟩
  · exact hnumber _ _ _ "root" none (Or.inl rfl) ⟨by decide, _, rfl, rfl⟩
  · exact hnumber _ _ table "root" none (Or.inr (Or.inl rfl)) ⟨by decide, _, rfl, rfl⟩
  · exact hrecord _ _ _ (Or.inl rfl) ⟨by decide, _, rfl, rfl⟩
  · exact hrecord _ _ (table ++ "\n") (Or.inr (Or.inr rfl)) ⟨by decide, _, rfl, rfl⟩

end WarehouseRows
