import WarehouseRows.Command.Run
import WarehouseRows.Proofs.Members
import WarehouseRows.Proofs.Outcome

/-!
# Options anywhere in a command line

An option stands in front of its value, and the two may stand anywhere among the other words of a
command line. Taking one of them out does not depend on where the others are: what remains has the
same other options around the same words. So when all options are taken, the words are left as
they are without options, and a run is told by the values of the options alone.

## Main definitions

* `Arguments.Interleaves`: options with their values behind them, anywhere between words.
* `Arguments.IsLine`: the command lines that give a command, an input file and options.
-/

namespace WarehouseRows

/-! ## Members in another order -/

namespace Members

variable {α : Type}

theorem get?_of_perm {members others : Members α} (h : members.Perm others)
    (hnodup : members.names.Nodup) (name : String) : members.get? name = others.get? name := by
  induction h with
  | nil => rfl
  | cons m h ih => rw [get?_cons, get?_cons, ih (List.nodup_cons.mp hnodup).2]
  | swap m m' members =>
    obtain ⟨n, v⟩ := m
    obtain ⟨n', v'⟩ := m'
    have hne : n' ≠ n := fun heq => (List.nodup_cons.mp hnodup).1 (heq ▸ List.mem_cons_self)
    simp only [get?_cons]
    grind
  | trans h h' ih ih' => rw [ih hnodup, ih' ((h.map Prod.fst).nodup_iff.mp hnodup)]

/-- The members of other names. -/
def without (members : Members α) (name : String) : Members α :=
  members.filter fun m => m.1 ≠ name

theorem without_of_not_mem {members : Members α} {name : String} (h : name ∉ members.names) :
    members.without name = members := by
  refine List.filter_eq_self.mpr fun m hm => ?_
  have hne : m.1 ≠ name := fun heq => h (heq ▸ List.mem_map_of_mem hm)
  simpa using hne

theorem mem_names_without {members : Members α} {name n : String} :
    n ∈ (members.without name).names ↔ n ∈ members.names ∧ n ≠ name := by
  simp only [names, without, List.mem_map, List.mem_filter, decide_eq_true_eq]
  grind

theorem get?_without {members : Members α} {name n : String} (h : n ≠ name) :
    (members.without name).get? n = members.get? n := by
  induction members with
  | nil => rfl
  | cons m members ih =>
    rw [without, List.filter_cons, get?_cons]
    by_cases hm : m.1 = name
    · rw [if_neg (by simpa using hm), if_neg (hm ▸ h), ← without, ih]
    · rw [if_pos (by simpa using hm), get?_cons, ← without, ih]

end Members

namespace Arguments

/-! ## Command lines -/

/-- The options of command lines. -/
def optionNames : List String := ["--config", "--name", "--namespace"]

/-- Whether words are options, each with its value behind it, between other words, with both in
their order. -/
inductive Interleaves : Members String → List String → List String → Prop
  | nil : Interleaves [] [] []
  | word {options : Members String} {others words : List String} (word : String)
      (h : Interleaves options others words) : Interleaves options (word :: others) (word :: words)
  | option {options : Members String} {others words : List String} (name value : String)
      (h : Interleaves options others words) :
      Interleaves ((name, value) :: options) others (name :: value :: words)

/-- Whether words give options, in any order and anywhere, beside a command and an input file. -/
def IsLine (options : Members String) (command input : String) (words : List String) : Prop :=
  ∃ order : Members String, order.Perm options ∧ Interleaves order [command, input] words

/-- Whether a word is neither an option nor asks for help. -/
def IsPlain (word : String) : Prop :=
  word ∉ optionNames ∧ word ≠ "--help" ∧ word ≠ "-h"

instance (word : String) : Decidable (IsPlain word) :=
  inferInstanceAs (Decidable (word ∉ optionNames ∧ word ≠ "--help" ∧ word ≠ "-h"))

/-- Whether options are distinct ones of the command line, with values that no option is taken for
and that do not ask for help. -/
structure AreAdmissible (options : Members String) : Prop where
  distinct : options.names.Nodup
  known : ∀ name ∈ options.names, name ∈ optionNames
  values : ∀ o ∈ options, looksLikeOption o.2 = false ∧ o.2 ≠ "-h"

theorem looksLikeOption_of_mem {name : String} (h : name ∈ optionNames) :
    looksLikeOption name = true := by
  have hall : ∀ n ∈ optionNames, looksLikeOption n = true := by decide
  exact hall name h

theorem AreAdmissible.of_perm {options order : Members String} (h : AreAdmissible options)
    (hperm : order.Perm options) : AreAdmissible order where
  distinct := (hperm.map Prod.fst).nodup_iff.mpr h.distinct
  known name hname := h.known name ((hperm.map Prod.fst).subset hname)
  values o ho := h.values o (hperm.subset ho)

theorem AreAdmissible.without {options : Members String} (h : AreAdmissible options)
    (name : String) : AreAdmissible (options.without name) where
  distinct := h.distinct.sublist ((List.filter_sublist).map Prod.fst)
  known n hn := h.known n (Members.mem_names_without.mp hn).1
  values o ho := h.values o (List.mem_of_mem_filter ho)

/-! ## Taking options out -/

theorem take_cons_of_ne {option word : String} (h : word ≠ option) (words : List String) :
    take option (word :: words) =
      (take option words).map fun found => (found.1, word :: found.2) := by
  rw [take.eq_def]
  simp only [h, if_false]

/-- Whether an option can be taken from a command line with a value, if any, so that words
remain that interleave the other options with the same others. -/
def Yields (option : String) (value : Option String) (options : Members String)
    (others words : List String) : Prop :=
  ∃ remaining, take option words = .ok (value, remaining) ∧ Interleaves options others remaining

theorem Yields.word {option word : String} {value : Option String} {options : Members String}
    {others words : List String} (h : Yields option value options others words)
    (hne : word ≠ option) : Yields option value options (word :: others) (word :: words) := by
  obtain ⟨remaining, htake, hremaining⟩ := h
  exact ⟨word :: remaining, by rw [take_cons_of_ne hne, htake]; rfl, .word word hremaining⟩

theorem Yields.option {option name text : String} {value : Option String}
    {options : Members String} {others words : List String}
    (h : Yields option value options others words) (hname : name ≠ option)
    (htext : text ≠ option) :
    Yields option value ((name, text) :: options) others (name :: text :: words) := by
  obtain ⟨remaining, htake, hremaining⟩ := h
  refine ⟨name :: text :: remaining, ?_, .option name text hremaining⟩
  rw [take_cons_of_ne hname, take_cons_of_ne htext, htake]
  rfl

/-- An option is taken with its value, wherever the two stand, and what remains interleaves the
other options with the same words. -/
theorem Interleaves.yields {options : Members String} {others words : List String}
    (h : Interleaves options others words) (hoptions : AreAdmissible options) (option : String)
    (hoption : option ∈ optionNames) (hothers : option ∉ others) :
    Yields option (options.get? option) (options.without option) others words := by
  induction h with
  | nil => exact ⟨[], rfl, .nil⟩
  | word word h ih =>
    rw [List.mem_cons, not_or] at hothers
    exact (ih hoptions hothers.2).word (Ne.symm hothers.1)
  | @option options others words name value h ih =>
    have hrest : AreAdmissible options :=
      ⟨(List.nodup_cons.mp hoptions.distinct).2,
        fun n hn => hoptions.known n (List.mem_cons_of_mem _ hn),
        fun o ho => hoptions.values o (List.mem_cons_of_mem _ ho)⟩
    have hvalue := (hoptions.values (name, value) List.mem_cons_self).1
    rw [Members.get?_cons]
    by_cases hname : option = name
    · subst hname
      have hnot : option ∉ Members.names options := (List.nodup_cons.mp hoptions.distinct).1
      have hwithout : Members.without ((option, value) :: options) option = options := by
        rw [Members.without, List.filter_cons, if_neg (by simp)]
        exact Members.without_of_not_mem hnot
      rw [if_pos rfl, hwithout]
      exact ⟨words, by simp [take, hvalue], h⟩
    · have hwithout : Members.without ((name, value) :: options) option =
          (name, value) :: Members.without options option := by
        rw [Members.without, List.filter_cons, if_pos (by simpa using Ne.symm hname)]
        rfl
      have htext : value ≠ option := by
        rintro rfl
        exact absurd (looksLikeOption_of_mem hoption) (by simp [hvalue])
      rw [if_neg hname, hwithout]
      exact (ih hrest hothers).option (Ne.symm hname) htext

theorem Interleaves.eq_of_nil {others words : List String} (h : Interleaves [] others words) :
    words = others := by
  generalize hoptions : ([] : Members String) = options at h
  induction h with
  | nil => rfl
  | word word h ih => rw [ih hoptions]
  | option name value h ih => exact absurd hoptions (by simp)

/-- When all options are taken out, none is left. -/
theorem without_eq_nil {options : Members String} (h : ∀ n ∈ options.names, n ∈ optionNames) :
    ((options.without "--config").without "--name").without "--namespace" = [] := by
  refine List.eq_nil_iff_forall_not_mem.mpr fun o ho => ?_
  have hname := List.mem_map_of_mem (f := Prod.fst) ho
  have hleft := Members.mem_names_without.mp hname
  have hleft' := Members.mem_names_without.mp hleft.1
  have hleft'' := Members.mem_names_without.mp hleft'.1
  have hknown := h o.1 hleft''.1
  simp only [optionNames, List.mem_cons, List.not_mem_nil, or_false] at hknown
  rcases hknown with hknown | hknown | hknown
  · exact hleft''.2 hknown
  · exact hleft'.2 hknown
  · exact hleft.2 hknown

/-! ## Reading -/

/-- What a command line with a command, an input file and options says. -/
def told (options : Members String) (command input : String) : Option Arguments :=
  if command.isEmpty || input.isEmpty then none
  else
    some
      { command := command
        input := input
        config := unlessEmpty (options.get? "--config")
        name := (options.get? "--name").getD defaultName
        space := options.get? "--namespace" }

section Line

variable {options : Members String} {command input : String} {words : List String}

theorem read_of_interleaves (h : Interleaves options [command, input] words)
    (hoptions : AreAdmissible options) (hcommand : IsPlain command) (hinput : IsPlain input) :
    read words = .ok (told options command input) := by
  have hothers (option : String) (hoption : option ∈ optionNames) : option ∉ [command, input] := by
    simp only [List.mem_cons, List.not_mem_nil, or_false, not_or]
    exact ⟨fun heq => hcommand.1 (heq ▸ hoption), fun heq => hinput.1 (heq ▸ hoption)⟩
  obtain ⟨first, htakeConfig, h⟩ := h.yields hoptions "--config" (by decide)
    (hothers _ (by decide))
  obtain ⟨second, htakeName, h⟩ := h.yields (hoptions.without _) "--name" (by decide)
    (hothers _ (by decide))
  obtain ⟨third, htakeSpace, h⟩ := h.yields ((hoptions.without _).without _) "--namespace"
    (by decide) (hothers _ (by decide))
  rw [without_eq_nil hoptions.known] at h
  obtain rfl := h.eq_of_nil
  rw [Members.get?_without (by decide)] at htakeName htakeSpace
  rw [Members.get?_without (by decide)] at htakeSpace
  rw [read, htakeConfig, Outcome.ok_bind]
  simp only [htakeName, Outcome.ok_bind, htakeSpace, told]
  split <;> rfl

/-- The order of options does not change what is told. -/
theorem told_of_perm {order : Members String} (h : order.Perm options)
    (hnodup : order.names.Nodup) : told order command input = told options command input := by
  simp only [told, Members.get?_of_perm h hnodup]

theorem read_of_isLine (h : IsLine options command input words) (hoptions : AreAdmissible options)
    (hcommand : IsPlain command) (hinput : IsPlain input) :
    read words = .ok (told options command input) := by
  obtain ⟨order, hperm, h⟩ := h
  have horder := hoptions.of_perm hperm
  rw [read_of_interleaves h horder hcommand hinput, told_of_perm hperm horder.distinct]

theorem Interleaves.mem {others : List String} (h : Interleaves options others words)
    {word : String} (hword : word ∈ words) :
    word ∈ others ∨ word ∈ options.names ∨ ∃ o ∈ options, word = o.2 := by
  induction h with
  | nil => exact absurd hword List.not_mem_nil
  | word w h ih =>
    rcases List.mem_cons.mp hword with rfl | hword
    · exact Or.inl List.mem_cons_self
    · exact (ih hword).imp_left (List.mem_cons_of_mem _)
  | option name value h ih =>
    rcases List.mem_cons.mp hword with rfl | hword
    · exact Or.inr (Or.inl List.mem_cons_self)
    · rcases List.mem_cons.mp hword with rfl | hword
      · exact Or.inr (Or.inr ⟨_, List.mem_cons_self, rfl⟩)
      · refine (ih hword).imp_right (Or.imp (List.mem_cons_of_mem _) ?_)
        rintro ⟨o, ho, rfl⟩
        exact ⟨o, List.mem_cons_of_mem _ ho, rfl⟩

theorem asksForHelp_of_isLine (h : IsLine options command input words)
    (hoptions : AreAdmissible options) (hcommand : IsPlain command) (hinput : IsPlain input) :
    asksForHelp words = false := by
  obtain ⟨order, hperm, h⟩ := h
  have horder := hoptions.of_perm hperm
  have hnot (word : String) (hhelp : word = "--help" ∨ word = "-h") : word ∉ words := by
    intro hword
    rcases h.mem hword with hword | hword | ⟨o, ho, rfl⟩
    · have hplain : IsPlain word := by
        rcases List.mem_cons.mp hword with rfl | hword
        · exact hcommand
        · exact List.mem_singleton.mp hword ▸ hinput
      exact hhelp.elim hplain.2.1 hplain.2.2
    · have hknown := horder.known word hword
      rcases hhelp with rfl | rfl <;> exact absurd hknown (by decide)
    · obtain ⟨hvalue, hne⟩ := horder.values o ho
      rcases hhelp with hhelp | hhelp
      · rw [hhelp] at hvalue
        exact absurd hvalue (by decide)
      · exact hne hhelp
  simp [asksForHelp, hnot]

end Line

end Arguments

/-! ## Runs -/

/-- Options may stand anywhere in a command line: it is read as the same arguments, and the run has
the same exit code, output and errors, whatever the files, the variables, the time and the
identifier of the run are. -/
theorem run_eq_of_isLine (s : Surroundings) {options : Members String} {command input : String}
    {words words' : List String} (hoptions : Arguments.AreAdmissible options)
    (hcommand : Arguments.IsPlain command) (hinput : Arguments.IsPlain input)
    (h : Arguments.IsLine options command input words)
    (h' : Arguments.IsLine options command input words') :
    Arguments.read words = .ok (Arguments.told options command input) ∧
      run s words = run s words' := by
  have hread := Arguments.read_of_isLine h hoptions hcommand hinput
  refine ⟨hread, ?_⟩
  rw [run, run, Arguments.asksForHelp_of_isLine h hoptions hcommand hinput,
    Arguments.asksForHelp_of_isLine h' hoptions hcommand hinput, hread,
    Arguments.read_of_isLine h' hoptions hcommand hinput]

/-- Three options in front of, between and behind the command and the file, and all of them behind
the two in another order. -/
theorem run_eq_of_isLine_threeOptions :
    Arguments.read ["--name", "visit", "avro-schema", "--config", "c.json", "t.json",
        "--namespace", "shop"] =
      .ok (some ⟨"avro-schema", "t.json", some "c.json", "visit", some "shop"⟩) ∧
    run { contentOf := fun _ => .ok "[]", time := "12:00", runId := "1" }
        ["--name", "visit", "avro-schema", "--config", "c.json", "t.json", "--namespace", "shop"] =
      run { contentOf := fun _ => .ok "[]", time := "12:00", runId := "1" }
        ["avro-schema", "t.json", "--namespace", "shop", "--config", "c.json", "--name",
          "visit"] := by
  have hoptions : Arguments.AreAdmissible
      [("--name", "visit"), ("--config", "c.json"), ("--namespace", "shop")] :=
    ⟨by decide, by decide, by decide⟩
  have hcommand : Arguments.IsPlain "avro-schema" := by decide
  have hinput : Arguments.IsPlain "t.json" := by decide
  refine run_eq_of_isLine _ hoptions hcommand hinput ⟨_, .refl _, ?_⟩
    ⟨[("--namespace", "shop"), ("--config", "c.json"), ("--name", "visit")], by decide, ?_⟩
  · exact .option _ _ (.word _ (.option _ _ (.word _ (.option _ _ .nil))))
  · exact .word _ (.word _ (.option _ _ (.option _ _ (.option _ _ .nil))))

end WarehouseRows
