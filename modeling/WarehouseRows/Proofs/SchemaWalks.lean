import WarehouseRows.Proofs.FailurePaths

/-!
# Walks over nested columns

Schemas are translated by walks over their columns: one column after another, and what is inside a
column before the next one. A walk fails at the first column with a flaw of its own, and where names
have to be distinct, at a column that repeats one, once all columns beside it have passed. On the way
out the failure collects the names of the columns around it, all of them or only some.

What a walk comes to is said here without its results. A function follows a walk if it treats each
column as the walk does, and then its failures are found at the column where the walk fails, with
the names that the walk tells.

## Main definitions

* `SchemaWalk`: a walk.
* `SchemaWalk.Passes`, `SchemaWalk.FailsIn`: the columns that pass, and the way to the one that fails.
* `SchemaWalk.FollowedBy`: the functions that follow a walk.
-/

namespace WarehouseRows

/-! ## Paths in failures -/

namespace ConversionError

/-- The path that a failure tells with some names; without any it tells none. -/
def dotted? (path : List String) : Option String :=
  if path = [] then none else some (".".intercalate path)

/-- Whether a failure is another one with a path, apart from its message. -/
def IsPlaced (e cause : ConversionError) (path : List String) : Prop :=
  ∃ message, e = { cause with message := message, field := dotted? path }

theorem intercalate_ne_empty {name : String} (path : List String) (h : name ≠ "") :
    ".".intercalate (name :: path) ≠ "" := by
  cases path with
  | nil => simpa using h
  | cons _ _ => simp [h]

/-- Under a name, the path of a failure grows at the front. -/
theorem IsPlaced.withField {e cause : ConversionError} {path : List String} {name : String}
    (h : e.IsPlaced cause path) (hpath : ∀ n ∈ path, n ≠ "") :
    (e.withField name).IsPlaced cause (name :: path) := by
  obtain ⟨message, rfl⟩ := h
  cases path with
  | nil =>
    have hplaceless : Placeless { cause with message := message, field := dotted? [] } := rfl
    exact ⟨_, withField_of_placeless hplaceless name⟩
  | cons first path =>
    have hfilled := intercalate_ne_empty path (hpath first List.mem_cons_self)
    have hpresent : present? (some (".".intercalate (first :: path))) =
        some (".".intercalate (first :: path)) := by
      rw [present?, Option.filter_some, if_pos (by simpa using hfilled)]
    rw [ConversionError.withField]
    simp only [IsPlaced, dotted?, reduceCtorEq, if_false, hpresent, String.intercalate_cons_cons]
    exact ⟨_, rfl⟩

end ConversionError

namespace Outcome

variable {ε ε' α β : Type}

/-- The failure of an outcome, if it is one. -/
def failure? : Except ε α → Option ε
  | .error e => some e
  | .ok _ => none

@[simp] theorem failure?_error (e : ε) : failure? (.error e : Except ε α) = some e := rfl

@[simp] theorem failure?_ok (a : α) : failure? (.ok a : Except ε α) = none := rfl

theorem failure?_eq_some {x : Except ε α} {e : ε} : failure? x = some e ↔ x = .error e := by
  cases x <;> simp

theorem failure?_mapError (x : Except ε α) (f : ε → ε') :
    failure? (x.mapError f) = (failure? x).map f := by
  cases x <;> rfl

theorem failure?_map (x : Except ε α) (f : α → β) : failure? (x.map f) = failure? x := by
  cases x <;> rfl

/-- A step that cannot fail does not change whether the steps before it do. -/
theorem failure?_bind_pure (x : Except ε α) (f : α → β) :
    failure? (x >>= fun a => pure (f a)) = failure? x := by
  cases x <;> rfl

/-- What goes through a list item by item fails as the first item that does. -/
theorem failure?_eq_findSome? {κ : Type} (run : List κ → Except ε (List β))
    {step : κ → Except ε α} {put : κ → α → β} (hnil : run [] = .ok [])
    (hcons : ∀ c rest, run (c :: rest) =
      step c >>= fun a => run rest >>= fun bs => pure (put c a :: bs)) (items : List κ) :
    failure? (run items) = items.findSome? fun c => failure? (step c) := by
  induction items with
  | nil => rw [hnil]; rfl
  | cons c items ih =>
    rw [hcons, List.findSome?_cons, ← ih]
    cases step c with
    | error e => rfl
    | ok a => exact failure?_bind_pure (run items) _

end Outcome

namespace Schema

/-- The first of some names that occurs again after names that were already seen. -/
def firstRepeatedName? (seen : List String) : List String → Option String
  | [] => none
  | n :: rest => if seen.contains n then some n else firstRepeatedName? (n :: seen) rest

theorem mem_of_firstRepeatedName? {seen names : List String} {name : String}
    (h : firstRepeatedName? seen names = some name) : name ∈ names := by
  induction names generalizing seen with
  | nil => simp [firstRepeatedName?] at h
  | cons n names ih =>
    rw [firstRepeatedName?] at h
    split at h
    · exact Option.some.inj h ▸ List.mem_cons_self
    · exact List.mem_cons_of_mem _ (ih h)

/-- The refusal of a name that occurs again. -/
def repeatedName (name : String) : ConversionError :=
  { code := .schemaMismatch
    message := s!"Duplicate field name: {name}"
    field := some name }

theorem firstRepeated?_eq (seen : List String) (fields : List Field) :
    firstRepeated? seen fields = firstRepeatedName? seen (fields.map Named.name) := by
  induction fields generalizing seen with
  | nil => rfl
  | cons f fields ih => rw [firstRepeated?, List.map_cons, firstRepeatedName?, ih]

theorem failure?_create (fields : List Field) :
    Outcome.failure? (create fields) =
      (firstRepeatedName? [] (fields.map Named.name)).map repeatedName := by
  rw [create, firstRepeated?_eq]
  split <;> simp_all [repeatedName]

end Schema

/-! ## Walks -/

/-- A column on the way to a failure, and whether the failure tells its name. -/
structure Step where
  name : String
  told : Bool

/-- The names that a failure tells of the columns on the way to it. -/
def Step.toldNames (steps : List Step) : List String :=
  (steps.filter Step.told).map Step.name

namespace Step

/-- The length of names, with a separator for each. -/
def span : List String → Nat
  | [] => 0
  | name :: names => name.length + 1 + span names

theorem length_intercalate (name : String) (path : List String) :
    (".".intercalate (name :: path)).length + 1 = span (name :: path) := by
  induction path generalizing name with
  | nil => simp [span]
  | cons next path ih =>
    have hdot : ".".length = 1 := rfl
    rw [String.intercalate_cons_cons, String.length_append, String.length_append, hdot, span,
      ← ih]
    omega

theorem toldNames_told (name : String) (steps : List Step) :
    toldNames (⟨name, true⟩ :: steps) = name :: toldNames steps :=
  rfl

theorem toldNames_silent (name : String) (steps : List Step) :
    toldNames (⟨name, false⟩ :: steps) = toldNames steps :=
  rfl

theorem span_toldNames_le (steps : List Step) :
    span (toldNames steps) ≤ span (steps.map Step.name) := by
  induction steps with
  | nil => exact Nat.le_refl _
  | cons step steps ih =>
    obtain ⟨name, told⟩ := step
    simp only [List.map_cons, span]
    cases told with
    | true =>
      rw [toldNames_told, span]
      omega
    | false =>
      rw [toldNames_silent]
      omega

/-- Names that are left out shorten the path. -/
theorem told_of_span_eq {steps : List Step}
    (h : span (toldNames steps) = span (steps.map Step.name)) : ∀ step ∈ steps, step.told = true := by
  induction steps with
  | nil => simp
  | cons step steps ih =>
    obtain ⟨name, told⟩ := step
    simp only [List.map_cons, span] at h
    cases told with
    | true =>
      rw [toldNames_told, span] at h
      exact List.forall_mem_cons.mpr ⟨rfl, ih (by omega)⟩
    | false =>
      have hle := span_toldNames_le steps
      rw [toldNames_silent] at h
      omega

theorem toldNames_eq {steps : List Step} (h : ∀ step ∈ steps, step.told = true) :
    toldNames steps = steps.map Step.name := by
  rw [toldNames, List.filter_eq_self.mpr h]

/-- A failure tells the path of all steps exactly if it tells every step. -/
theorem dotted?_toldNames_eq_iff {steps : List Step} (hne : steps ≠ []) :
    ConversionError.dotted? (toldNames steps) = some (".".intercalate (steps.map Step.name)) ↔
      ∀ step ∈ steps, step.told = true := by
  constructor
  · intro h
    rw [ConversionError.dotted?] at h
    split at h
    · exact absurd h (by simp)
    · rename_i htold
      obtain ⟨name, path, hpath⟩ := List.exists_cons_of_ne_nil htold
      obtain ⟨first, rest, hsteps⟩ := List.exists_cons_of_ne_nil
        (show steps.map Step.name ≠ [] by simpa using hne)
      have hlength := congrArg String.length (Option.some.inj h)
      have htoldLength := length_intercalate name path
      have hallLength := length_intercalate first rest
      rw [← hpath] at htoldLength
      rw [← hsteps] at hallLength
      exact told_of_span_eq (by omega)
  · intro h
    rw [ConversionError.dotted?, toldNames_eq h, if_neg (by simpa using hne)]

end Step

/-- A walk over nested columns. -/
structure SchemaWalk (κ : Type) where
  name : κ → String
  /-- The columns inside a column. -/
  inner : κ → List κ
  /-- What is wrong with a column itself, whatever is inside. -/
  flaw? : κ → Option ConversionError
  /-- Whether columns side by side must have distinct names. -/
  distinct : Bool
  /-- Whether a failure tells the name of a column, by the column around it and by the steps that go
  on from there. -/
  tells : Option κ → List Step → Bool
  /-- Columns do not lie inside each other for ever. -/
  grounded : WellFounded fun d c => d ∈ inner c

namespace SchemaWalk

variable {κ : Type} (w : SchemaWalk κ)

/-- The name that columns side by side repeat, if they must not. -/
def repeated? (columns : List κ) : Option String :=
  if w.distinct then Schema.firstRepeatedName? [] (columns.map w.name) else none

/-- Whether a walk passes a column and everything inside it. -/
inductive Passes : κ → Prop
  | mk {c : κ} (hsound : w.flaw? c = none) (hinner : ∀ d ∈ w.inner c, Passes d)
      (hnames : w.repeated? (w.inner c) = none) : Passes c

/-- The way to the first column at which a walk fails, among columns side by side and what is inside
them, and what is wrong there. The first argument is the column around them. -/
inductive FailsIn : Option κ → List κ → List Step → ConversionError → Prop
  | flaw {parent : Option κ} {before after : List κ} {c : κ} {cause : ConversionError}
      (hbefore : ∀ b ∈ before, w.Passes b) (h : w.flaw? c = some cause) :
      FailsIn parent (before ++ c :: after) [⟨w.name c, w.tells parent []⟩] cause
  | inside {parent : Option κ} {before after : List κ} {c : κ} {steps : List Step}
      {cause : ConversionError} (hbefore : ∀ b ∈ before, w.Passes b) (hsound : w.flaw? c = none)
      (h : FailsIn (some c) (w.inner c) steps cause) :
      FailsIn parent (before ++ c :: after) (⟨w.name c, w.tells parent steps⟩ :: steps) cause
  | repeated {parent : Option κ} {columns : List κ} {name : String}
      (hall : ∀ c ∈ columns, w.Passes c) (h : w.repeated? columns = some name) :
      FailsIn parent columns [⟨name, true⟩] (Schema.repeatedName name)

/-- Whether a column is among columns, or inside one of them at any depth. -/
inductive Occurs : List κ → κ → Prop
  | here {columns : List κ} {c : κ} (h : c ∈ columns) : Occurs columns c
  | inside {columns : List κ} {c d : κ} (h : c ∈ columns) (hd : Occurs (w.inner c) d) :
      Occurs columns d

/-- Whether no column has the empty name. -/
def Named (columns : List κ) : Prop :=
  ∀ c, w.Occurs columns c → w.name c ≠ ""

variable {w}

theorem Named.inner {columns : List κ} (h : w.Named columns) {c : κ} (hc : c ∈ columns) :
    w.Named (w.inner c) :=
  fun d hd => h d (.inside hc hd)

theorem named_nil : w.Named [] := by
  intro c hc
  cases hc with
  | here h => exact absurd h List.not_mem_nil
  | inside h _ => exact absurd h List.not_mem_nil

/-- Columns have names if the first has one, and those inside it and beside it have. -/
theorem named_cons {c : κ} {columns : List κ} :
    w.Named (c :: columns) ↔ w.name c ≠ "" ∧ w.Named (w.inner c) ∧ w.Named columns := by
  constructor
  · intro h
    refine ⟨h c (.here List.mem_cons_self), h.inner List.mem_cons_self, fun d hd => h d ?_⟩
    cases hd with
    | here hd => exact .here (List.mem_cons_of_mem _ hd)
    | inside hparent hd => exact .inside (List.mem_cons_of_mem _ hparent) hd
  · rintro ⟨hname, hinner, hrest⟩ d hd
    cases hd with
    | here hd =>
      rcases List.mem_cons.mp hd with rfl | hd
      · exact hname
      · exact hrest d (.here hd)
    | inside hparent hd =>
      rcases List.mem_cons.mp hparent with rfl | hparent
      · exact hinner d hd
      · exact hrest d (.inside hparent hd)

theorem mem_of_repeated? {columns : List κ} {name : String} (h : w.repeated? columns = some name) :
    ∃ c ∈ columns, w.name c = name := by
  rw [repeated?] at h
  split at h
  · exact List.mem_map.mp (Schema.mem_of_firstRepeatedName? h)
  · exact absurd h (by simp)

theorem FailsIn.ne_nil {parent : Option κ} {columns : List κ} {steps : List Step}
    {cause : ConversionError} (h : w.FailsIn parent columns steps cause) : steps ≠ [] := by
  cases h <;> simp

/-- The columns on the way to the one that fails have names. -/
theorem FailsIn.named {parent : Option κ} {columns : List κ} {steps : List Step}
    {cause : ConversionError} (h : w.FailsIn parent columns steps cause) (hnames : w.Named columns) :
    ∀ n ∈ Step.toldNames steps, n ≠ "" := by
  have hsteps : ∀ step ∈ steps, step.name ≠ "" := by
    induction h with
    | flaw _ _ =>
      exact List.forall_mem_singleton.mpr
        (hnames _ (.here (List.mem_append_right _ List.mem_cons_self)))
    | @inside parent before after c steps cause _ _ _ ih =>
      have hc : c ∈ before ++ c :: after := List.mem_append_right _ List.mem_cons_self
      exact List.forall_mem_cons.mpr ⟨hnames c (.here hc), ih (hnames.inner hc)⟩
    | repeated _ hrepeated =>
      obtain ⟨c, hc, rfl⟩ := mem_of_repeated? hrepeated
      exact List.forall_mem_singleton.mpr (hnames c (.here hc))
  intro n hn
  obtain ⟨step, hstep, rfl⟩ := List.mem_map.mp hn
  exact hsteps step (List.mem_filter.mp hstep).1

theorem FailsIn.told {parent : Option κ} {columns : List κ} {steps : List Step}
    {cause : ConversionError} (h : w.FailsIn parent columns steps cause)
    (htells : ∀ parent steps, w.tells parent steps = true) : ∀ step ∈ steps, step.told = true := by
  induction h with
  | flaw => exact List.forall_mem_singleton.mpr (htells _ _)
  | inside _ _ _ ih => exact List.forall_mem_cons.mpr ⟨htells _ _, ih⟩
  | repeated => exact List.forall_mem_singleton.mpr rfl

/-! ## Columns that pass, and others -/

/-- Whether a walk passes columns side by side, or fails at one of them. -/
def Settles (w : SchemaWalk κ) (parent : Option κ) (columns : List κ) : Prop :=
  ((∀ c ∈ columns, w.Passes c) ∧ w.repeated? columns = none) ∨
    ∃ steps cause, w.FailsIn parent columns steps cause

/-- The columns in front pass, so the first one that fails is among the others. -/
theorem settles_append {parent : Option κ} (before : List κ) {after : List κ}
    (hbefore : ∀ b ∈ before, w.Passes b) (h : ∀ c ∈ after, w.Settles (some c) (w.inner c)) :
    w.Settles parent (before ++ after) := by
  induction after generalizing before with
  | nil =>
    rw [List.append_nil]
    cases hnames : w.repeated? before with
    | none => exact Or.inl ⟨hbefore, hnames⟩
    | some name => exact Or.inr ⟨_, _, .repeated hbefore hnames⟩
  | cons c after ih =>
    cases hflaw : w.flaw? c with
    | some cause => exact Or.inr ⟨_, _, .flaw hbefore hflaw⟩
    | none =>
      rcases h c List.mem_cons_self with ⟨hinner, hnames⟩ | ⟨steps, cause, hfails⟩
      · have hfront : ∀ b ∈ before ++ [c], w.Passes b := List.forall_mem_append.mpr
          ⟨hbefore, List.forall_mem_singleton.mpr (.mk hflaw hinner hnames)⟩
        rw [List.append_cons]
        exact ih (before ++ [c]) hfront fun d hd => h d (List.mem_cons_of_mem _ hd)
      · exact Or.inr ⟨_, _, .inside hbefore hflaw hfails⟩

/-- A walk passes all columns or fails at one of them. -/
theorem settles (w : SchemaWalk κ) (parent : Option κ) (columns : List κ) :
    w.Settles parent columns := by
  have hnone : ∀ b ∈ ([] : List κ), w.Passes b := fun b hb => absurd hb List.not_mem_nil
  have hinner (c : κ) : w.Settles (some c) (w.inner c) := by
    induction c using w.grounded.induction with
    | _ c ih => exact settles_append [] hnone ih
  exact settles_append [] hnone fun c _ => hinner c

/-! ## Functions that follow a walk -/

/-- The failure of columns side by side, from the failure of each. -/
def failureIn? (w : SchemaWalk κ) (fails : Option κ → κ → Option ConversionError)
    (parent : Option κ) (columns : List κ) : Option ConversionError :=
  (columns.findSome? (fails parent)).or ((w.repeated? columns).map Schema.repeatedName)

theorem failureIn?_nil (w : SchemaWalk κ) (fails : Option κ → κ → Option ConversionError)
    (parent : Option κ) : w.failureIn? fails parent [] = none := by
  simp [failureIn?, repeated?, Schema.firstRepeatedName?]

/-- Whether the failures of columns follow a walk: a column fails for its flaw, or else as the columns
inside it do, seen from outside; each tells the name of the column if the walk does. -/
structure FollowedBy (w : SchemaWalk κ) (fails : Option κ → κ → Option ConversionError)
    (seen : Option κ → κ → ConversionError → ConversionError) : Prop where
  flaw : ∀ parent c cause, w.flaw? c = some cause → ∃ e, fails parent c = some e ∧
    e.IsPlaced cause (Step.toldNames [⟨w.name c, w.tells parent []⟩])
  inside : ∀ parent c, w.flaw? c = none →
    fails parent c = (w.failureIn? fails (some c) (w.inner c)).map (seen parent c)
  seen : ∀ parent c e cause steps, steps ≠ [] → (∀ n ∈ Step.toldNames steps, n ≠ "") →
    e.IsPlaced cause (Step.toldNames steps) → (seen parent c e).IsPlaced cause
      (Step.toldNames (⟨w.name c, w.tells parent steps⟩ :: steps))

variable {fails : Option κ → κ → Option ConversionError}
  {seen : Option κ → κ → ConversionError → ConversionError}

theorem FollowedBy.fails_eq_none (h : w.FollowedBy fails seen) {c : κ} (hc : w.Passes c)
    (parent : Option κ) : fails parent c = none := by
  induction hc generalizing parent with
  | @mk c hsound _ hnames ih =>
    have hall : (w.inner c).findSome? (fails (some c)) = none :=
      List.findSome?_eq_none_iff.mpr fun d hd => ih d hd (some c)
    rw [h.inside parent c hsound, failureIn?, hall, hnames]
    rfl

theorem FollowedBy.findSome?_eq_none (h : w.FollowedBy fails seen) {columns : List κ}
    (hall : ∀ c ∈ columns, w.Passes c) (parent : Option κ) :
    columns.findSome? (fails parent) = none :=
  List.findSome?_eq_none_iff.mpr fun c hc => h.fails_eq_none (hall c hc) parent

/-- Columns fail as the first of them that does. -/
theorem FollowedBy.failureIn?_eq_some (h : w.FollowedBy fails seen) {before after : List κ}
    {parent : Option κ} {c : κ} {e : ConversionError} (hbefore : ∀ b ∈ before, w.Passes b)
    (hc : fails parent c = some e) : w.failureIn? fails parent (before ++ c :: after) = some e := by
  rw [failureIn?, List.findSome?_append, h.findSome?_eq_none hbefore, List.findSome?_cons, hc]
  rfl

/-- Where a walk fails, a function that follows it fails with the names that the walk tells. -/
theorem FollowedBy.exists_failureIn? (h : w.FollowedBy fails seen) {parent : Option κ}
    {columns : List κ} {steps : List Step} {cause : ConversionError} (hnames : w.Named columns)
    (hfails : w.FailsIn parent columns steps cause) :
    ∃ e, w.failureIn? fails parent columns = some e ∧ e.IsPlaced cause (Step.toldNames steps) := by
  induction hfails with
  | @flaw parent before after c cause hbefore hflaw =>
    obtain ⟨e, hc, he⟩ := h.flaw parent c cause hflaw
    exact ⟨e, h.failureIn?_eq_some hbefore hc, he⟩
  | @inside parent before after c steps cause hbefore hsound hinner ih =>
    have hc : c ∈ before ++ c :: after := List.mem_append_right _ List.mem_cons_self
    obtain ⟨e, hfailure, he⟩ := ih (hnames.inner hc)
    have hseen := h.seen parent c e cause steps (hinner.ne_nil) (hinner.named (hnames.inner hc)) he
    refine ⟨seen parent c e, h.failureIn?_eq_some hbefore ?_, hseen⟩
    rw [h.inside parent c hsound, hfailure]
    rfl
  | @repeated parent columns name hall hrepeated =>
    refine ⟨Schema.repeatedName name, ?_, _, rfl⟩
    rw [failureIn?, h.findSome?_eq_none hall, hrepeated]
    rfl

/-- A function that follows a walk fails exactly where the walk does. -/
theorem FollowedBy.failureIn?_ne_none_iff (h : w.FollowedBy fails seen) {parent : Option κ}
    {columns : List κ} (hnames : w.Named columns) :
    (∃ e, w.failureIn? fails parent columns = some e) ↔
      ∃ steps cause, w.FailsIn parent columns steps cause := by
  constructor
  · rintro ⟨e, he⟩
    rcases w.settles parent columns with ⟨hall, hunrepeated⟩ | hfails
    · rw [failureIn?, h.findSome?_eq_none hall, hunrepeated] at he
      exact absurd he (by simp)
    · exact hfails
  · rintro ⟨steps, cause, hfails⟩
    obtain ⟨e, he, _⟩ := h.exists_failureIn? hnames hfails
    exact ⟨e, he⟩

end SchemaWalk

end WarehouseRows
