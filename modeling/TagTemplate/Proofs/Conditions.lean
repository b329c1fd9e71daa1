import Mathlib.Data.List.Induction
import TagTemplate.Filter.Run

/-!
# Conditions are consumed once

The filters of a chain share one condition. A filter `is` or `isnot` that has a value *asks*: it
answers a question about the text as it stands and sets the condition to the answer. A filter `then`
or `else` *waits* for one of the two answers. It *fires* if the condition is that answer and there
is a value to put in the place of the text, and then the condition is unset. Nothing else touches
the condition, whatever it does to the text.

What is said here about the condition is said about the filters of a run. Asking and waiting are
read off a filter as it is written, and a waiting filter has fired if anything is different after it
(`Filtering.Fires`); the condition is not mentioned. It is what ties the two together: along a run
without questions in which nothing fires it stays as it was (`Filtering.condition_run`), so that it
holds an answer exactly if that is the answer of the last question, and nothing fired since
(`Filtering.condition_run_start`).

An answer is used up by the filter that fires on it. So a run fires at most as often as it asks, and
one time more if it begins with an answer (`Filtering.length_firing_le`).
-/

namespace TagTemplate

namespace FilterMethod

/-- What a method that asks answers about the text, given a value. -/
def answer? (t value : Text) : FilterMethod → Option Bool
  | .is => some (t = value)
  | .isNot => some (t ≠ value)
  | _ => none

/-- Whether a method asks. That it does is not up to the text. -/
def asks : FilterMethod → Bool
  | .is => true
  | .isNot => true
  | _ => false

/-- The answer that a method waits for. -/
def wanted? : FilterMethod → Option Bool
  | .thenDo => some true
  | .elseDo => some false
  | _ => none

/-- A method has an answer exactly if it asks. -/
theorem isSome_answer? (t value : Text) (method : FilterMethod) :
    (method.answer? t value).isSome = method.asks := by
  cases method <;> rfl

end FilterMethod

namespace FilterStep

/-- The method of a filter, if its name is known. -/
def method? (filter : FilterStep) : Option FilterMethod := FilterMethod.ofName? filter.method

/-- The value of a filter, if its argument has one. -/
def value? (filter : FilterStep) : Option Text := (FilterArgument.parse filter.argument).value?

/-- What a filter that asks answers about the text. -/
def answer? (filter : FilterStep) (t : Text) : Option Bool :=
  filter.method?.bind fun method ↦ filter.value?.bind fun value ↦ method.answer? t value

/-- Whether a filter asks. -/
def asks (filter : FilterStep) : Bool :=
  filter.method?.any FilterMethod.asks && filter.value?.isSome

/-- The answer that a filter waits for. -/
def wanted? (filter : FilterStep) : Option Bool := filter.method?.bind FilterMethod.wanted?

/-- A filter has an answer exactly if it asks. -/
theorem isSome_answer? (filter : FilterStep) (t : Text) :
    (filter.answer? t).isSome = filter.asks := by
  rw [answer?, asks]
  rcases filter.method? with - | method
  · rfl
  · rcases filter.value? with - | value
    · simp
    · simpa using method.isSome_answer? t value

end FilterStep

namespace Filtering

/-- Runs filters one after the other. -/
def run (f : Filtering) (filters : List FilterStep) : Filtering := filters.foldl step f

/-- A filter fires if it waits for an answer and changes anything. -/
def Fires (f : Filtering) (filter : FilterStep) : Prop :=
  filter.wanted?.isSome = true ∧ f.step filter ≠ f

instance (f : Filtering) (filter : FilterStep) : Decidable (f.Fires filter) :=
  inferInstanceAs (Decidable (_ ∧ _))

/-- The filters of a run that fire, in order. -/
def firing (f : Filtering) : List FilterStep → List FilterStep
  | [] => []
  | filter :: filters =>
    if f.Fires filter then filter :: (f.step filter).firing filters
    else (f.step filter).firing filters

@[simp] theorem run_nil (f : Filtering) : f.run [] = f := rfl

@[simp] theorem run_cons (f : Filtering) (filter : FilterStep) (filters : List FilterStep) :
    f.run (filter :: filters) = (f.step filter).run filters := rfl

/-- Filters run one chain after the other. -/
theorem run_append (f : Filtering) (filters filters' : List FilterStep) :
    f.run (filters ++ filters') = (f.run filters).run filters' :=
  List.foldl_append

theorem firing_cons_of_fires {f : Filtering} {filter : FilterStep} (h : f.Fires filter)
    (filters : List FilterStep) :
    f.firing (filter :: filters) = filter :: (f.step filter).firing filters := if_pos h

theorem firing_cons_of_not_fires {f : Filtering} {filter : FilterStep} (h : ¬f.Fires filter)
    (filters : List FilterStep) :
    f.firing (filter :: filters) = (f.step filter).firing filters := if_neg h

/-- Which filters fire in a second chain depends on what the first one left. -/
theorem firing_append (f : Filtering) (filters filters' : List FilterStep) :
    f.firing (filters ++ filters') = f.firing filters ++ (f.run filters).firing filters' := by
  induction filters generalizing f with
  | nil => rfl
  | cons filter filters ih =>
    rw [List.cons_append, run_cons]
    by_cases hfires : f.Fires filter
    · rw [firing_cons_of_fires hfires, firing_cons_of_fires hfires, ih, List.cons_append]
    · rw [firing_cons_of_not_fires hfires, firing_cons_of_not_fires hfires, ih]

/-! ### One filter -/

/-- A filter with a known method applies it. -/
theorem step_of_method? {f : Filtering} {filter : FilterStep} {method : FilterMethod}
    (h : filter.method? = some method) :
    f.step filter = f.apply method (.parse filter.argument) := by
  rw [FilterStep.method?] at h
  rw [step, h]

/-- A question sets the condition to its answer. -/
theorem step_of_answer? {f : Filtering} {filter : FilterStep} {answer : Bool}
    (h : filter.answer? f.text = some answer) : f.step filter = { f with condition := answer } := by
  obtain ⟨method, hmethod, h⟩ := Option.bind_eq_some_iff.1 h
  obtain ⟨value, hvalue, hanswer⟩ := Option.bind_eq_some_iff.1 h
  rw [FilterStep.value?] at hvalue
  rw [step_of_method? hmethod]
  cases method <;> cases hanswer
  all_goals simp only [apply, hvalue, applyValue]

/-- A filter that waits for an answer is a branch, if it has a value. -/
theorem step_of_wanted? {f : Filtering} {filter : FilterStep} {wanted : Bool}
    (h : filter.wanted? = some wanted) :
    f.step filter = (filter.value?.map (f.branch wanted)).getD f := by
  obtain ⟨method, hmethod, hwanted⟩ := Option.bind_eq_some_iff.1 h
  rw [step_of_method? hmethod, FilterStep.value?]
  cases method <;> cases hwanted
  all_goals
    rcases hvalue : (FilterArgument.parse filter.argument).value? with - | value <;>
      simp only [apply, hvalue, applyValue, Option.map_none, Option.map_some, Option.getD_none,
        Option.getD_some]

/-- Filters that neither ask nor wait leave the condition alone. -/
theorem condition_step_of_wanted?_eq_none {f : Filtering} {filter : FilterStep}
    (hasks : filter.asks = false) (hwanted : filter.wanted? = none) :
    (f.step filter).condition = f.condition := by
  rcases hmethod : filter.method? with - | method
  · rw [FilterStep.method?] at hmethod
    rw [step, hmethod]
  · rw [FilterStep.wanted?, hmethod] at hwanted
    rw [FilterStep.asks, hmethod] at hasks
    rw [step_of_method? hmethod]
    rcases hvalue : (FilterArgument.parse filter.argument).value? with - | value
    · cases method <;> simp only [apply, hvalue]
      split <;> rfl
    · rw [FilterStep.value?, hvalue] at hasks
      cases method <;> cases hasks <;> cases hwanted
      all_goals simp only [apply, hvalue, applyValue]
      all_goals split <;> rfl

/-- **A filter fires on the condition**: it is the answer that the filter waits for, and there is a
value. -/
theorem fires_iff {f : Filtering} {filter : FilterStep} {wanted : Bool}
    (h : filter.wanted? = some wanted) :
    f.Fires filter ↔ f.condition = some wanted ∧ filter.value?.isSome = true := by
  rw [Fires, h, step_of_wanted? h]
  rcases filter.value? with - | value
  · simp
  · by_cases hcondition : f.condition = some wanted
    · have hne : (⟨value, none⟩ : Filtering) ≠ f := by
        rintro rfl
        cases hcondition
      simp [branch, hcondition, hne]
    · simp [branch, hcondition]

/-- A filter that fires puts its value in the place of the text and unsets the condition. -/
theorem step_of_fires {f : Filtering} {filter : FilterStep} (h : f.Fires filter) :
    filter.value? = some (f.step filter).text ∧ (f.step filter).condition = none := by
  obtain ⟨wanted, hwanted⟩ := Option.isSome_iff_exists.1 h.1
  obtain ⟨hcondition, hsome⟩ := (fires_iff hwanted).1 h
  obtain ⟨value, hvalue⟩ := Option.isSome_iff_exists.1 hsome
  rw [step_of_wanted? hwanted, hvalue]
  simp [branch, hcondition]

/-- **Nothing else touches the condition.** -/
theorem condition_step {f : Filtering} {filter : FilterStep} (hasks : filter.asks = false)
    (hfires : ¬f.Fires filter) : (f.step filter).condition = f.condition := by
  rcases hwanted : filter.wanted? with - | wanted
  · exact condition_step_of_wanted?_eq_none hasks hwanted
  · have hsome : filter.wanted?.isSome = true := by rw [hwanted]; rfl
    have hsame : f.step filter = f := Decidable.not_not.1 fun hne ↦ hfires ⟨hsome, hne⟩
    rw [hsame]

/-- A filter does not both ask and fire. -/
theorem asks_eq_false_of_fires {f : Filtering} {filter : FilterStep} (h : f.Fires filter) :
    filter.asks = false := by
  obtain ⟨wanted, hwanted⟩ := Option.isSome_iff_exists.1 h.1
  obtain ⟨method, hmethod, hwaits⟩ := Option.bind_eq_some_iff.1 hwanted
  rw [FilterStep.asks, hmethod]
  cases method <;> cases hwaits <;> rfl

/-! ### Runs -/

/-- While nothing asks and nothing fires, the condition stays as it was. -/
theorem condition_run {f : Filtering} {filters : List FilterStep}
    (hasks : ∀ filter ∈ filters, filter.asks = false) (hfiring : f.firing filters = []) :
    (f.run filters).condition = f.condition := by
  induction filters generalizing f with
  | nil => rfl
  | cons filter filters ih =>
    rw [List.forall_mem_cons] at hasks
    have hfires : ¬f.Fires filter := fun hfires ↦ by
      rw [firing_cons_of_fires hfires] at hfiring
      cases hfiring
    rw [firing_cons_of_not_fires hfires] at hfiring
    rw [run_cons, ih hasks.2 hfiring, condition_step hasks.1 hfires]

/-- **The condition holds the last answer**, as long as nothing has fired since it was given. -/
theorem condition_run_start (t : Text) (filters : List FilterStep) (answer : Bool) :
    ((start t).run filters).condition = some answer ↔
      ∃ earlier question between, filters = earlier ++ question :: between ∧
        question.answer? ((start t).run earlier).text = some answer ∧
        (∀ filter ∈ between, filter.asks = false) ∧
        ((start t).run (earlier ++ [question])).firing between = [] := by
  constructor
  · intro hcondition
    -- By induction from the end of the run: the last filter asks, or it has left all as it was.
    induction filters using List.reverseRecOn with
    | nil => cases hcondition
    | append_singleton filters filter ih =>
      let f := (start t).run filters
      have hrun : (start t).run (filters ++ [filter]) = f.step filter := run_append _ _ _
      rw [hrun] at hcondition
      by_cases hfires : f.Fires filter
      · rw [(step_of_fires hfires).2] at hcondition
        cases hcondition
      · rcases hanswer : filter.answer? f.text with - | answer'
        · have hasks : filter.asks = false := by
            rw [← filter.isSome_answer? f.text, hanswer]
            rfl
          rw [condition_step hasks hfires] at hcondition
          obtain ⟨earlier, question, between, rfl, hquestion, hquiet, hfiring⟩ := ih hcondition
          refine ⟨earlier, question, between ++ [filter], by simp, hquestion, ?_, ?_⟩
          · intro other hother
            rcases List.mem_append.1 hother with hother | hother
            · exact hquiet other hother
            · rw [List.mem_singleton.1 hother]
              exact hasks
          · have hbetween : ((start t).run (earlier ++ [question])).run between = f := by
              rw [← run_append, List.append_assoc, List.singleton_append]
            rw [firing_append, hfiring, hbetween, firing_cons_of_not_fires hfires]
            rfl
        · rw [step_of_answer? hanswer] at hcondition
          cases hcondition
          exact ⟨filters, filter, [], rfl, hanswer, by simp, rfl⟩
  · rintro ⟨earlier, question, between, rfl, hquestion, hquiet, hfiring⟩
    rw [List.append_cons, run_append, condition_run hquiet hfiring, run_append, run_cons, run_nil,
      step_of_answer? hquestion]

/-- **A run fires at most as often as it asks**, and once more if it begins with an answer. What is
left of an answer in the end has not been used. -/
theorem length_firing_le (f : Filtering) (filters : List FilterStep) :
    (f.firing filters).length + (f.run filters).condition.toList.length ≤
      filters.countP FilterStep.asks + f.condition.toList.length := by
  induction filters generalizing f with
  | nil => simp [firing]
  | cons filter filters ih =>
    have hrest := ih (f.step filter)
    rw [run_cons, List.countP_cons]
    by_cases hfires : f.Fires filter
    · obtain ⟨wanted, hwanted⟩ := Option.isSome_iff_exists.1 hfires.1
      rw [(step_of_fires hfires).2] at hrest
      rw [firing_cons_of_fires hfires, asks_eq_false_of_fires hfires,
        ((fires_iff hwanted).1 hfires).1]
      simp at hrest ⊢
      omega
    · rw [firing_cons_of_not_fires hfires]
      rcases hasks : filter.asks with - | -
      · rw [condition_step hasks hfires] at hrest
        simpa using hrest
      · have hone : (f.step filter).condition.toList.length ≤ 1 := by
          rcases (f.step filter).condition <;> simp
        simp
        omega

end Filtering

open Filtering

/-- **Each condition is consumed at most once.** Filters run over a text. A filter that waits for an
answer fires exactly if it has a value, and the last question before it was asked after anything
fired last, and was answered so by the text as it stood then; a filter that fires puts its value in
the place of the text, and one that does not leaves all as it is. So at most as many filters fire as
there are questions, and of the filters behind a question, up to the next one, at most one. -/
theorem FilterChain.conditions_consumed_once (t : Text) (chain : FilterChain) :
    (∀ before filter after wanted, chain = before ++ filter :: after →
      filter.wanted? = some wanted →
      let f := (start t).run before
      (f.Fires filter ↔ filter.value?.isSome = true ∧
        ∃ earlier question between, before = earlier ++ question :: between ∧
          question.answer? ((start t).run earlier).text = some wanted ∧
          (∀ other ∈ between, other.asks = false) ∧
          ((start t).run (earlier ++ [question])).firing between = []) ∧
      (f.Fires filter → filter.value? = some (f.step filter).text) ∧
      (¬f.Fires filter → f.step filter = f)) ∧
    ((start t).firing chain).length ≤ chain.countP FilterStep.asks ∧
    ∀ before between after, chain = before ++ between ++ after →
      (∀ filter ∈ between, filter.asks = false) →
      (((start t).run before).firing between).length ≤ 1 := by
  refine ⟨fun before filter after wanted _ hwanted ↦ ⟨?_, ?_, ?_⟩, ?_, ?_⟩
  · rw [fires_iff hwanted, condition_run_start, and_comm]
  · exact fun hfires ↦ (step_of_fires hfires).1
  · intro hfires
    have hsome : filter.wanted?.isSome = true := by rw [hwanted]; rfl
    exact Decidable.not_not.1 fun hne ↦ hfires ⟨hsome, hne⟩
  · -- At the start no condition waits, so that each one that fires was asked for.
    have hle := (start t).length_firing_le chain
    have hstart : (start t).condition = none := rfl
    rw [hstart] at hle
    exact Nat.le_trans (Nat.le_add_right _ _) hle
  · -- Between two questions there is at most the condition that was left before.
    intro before between after _ hasks
    have hle := ((start t).run before).length_firing_le between
    have hone : ((start t).run before).condition.toList.length ≤ 1 := by
      rcases ((start t).run before).condition <;> simp
    rw [List.countP_eq_zero.2 fun filter hfilter ↦ by simp [hasks filter hfilter]] at hle
    omega

/-- A chain in which two answers are used, each by a branch that stands behind others: an `else`
that waits for the other answer, a `then` whose argument has no value, and a list that asks
nothing. -/
def FilterChain.crossed : FilterChain :=
  [⟨"is".toList, ['a']⟩, ⟨"else".toList, ['x']⟩, ⟨"then".toList, "[\"v\"]".toList⟩,
    ⟨"is".toList, "[\"b\"]".toList⟩, ⟨"then".toList, "\x7b\"value\": \"b\"\x7d".toList⟩,
    ⟨"else".toList, ['c']⟩, ⟨"isnot".toList, ['b']⟩, ⟨"shout".toList, []⟩,
    ⟨"otherwise".toList, ['d']⟩]

/-- The first answer is used by the second `then`, behind an `else` and a `then` that leave it, and
nothing fires on it a second time. -/
theorem FilterChain.crossed_consumed :
    let question : FilterStep := ⟨"is".toList, ['a']⟩
    let between := (crossed.take 4).tail
    let filter : FilterStep := ⟨"then".toList, "\x7b\"value\": \"b\"\x7d".toList⟩
    crossed = question :: between ++ filter :: crossed.drop 5 ∧ filter.wanted? = some true ∧
      (∀ other ∈ between, other.asks = false) ∧
      ((start ['a']).run (question :: between)).Fires filter ∧
      ((start ['a']).firing crossed).length ≤ 2 ∧
      (((start ['a']).run [question]).firing (between ++ [filter, ⟨"else".toList, ['c']⟩])).length
        ≤ 1 := by
  intro question between filter
  have hsplit : crossed = question :: between ++ filter :: crossed.drop 5 := by decide
  have hwanted : filter.wanted? = some true := by decide
  have hquiet : ∀ other ∈ between, other.asks = false := by decide
  obtain ⟨hbranch, hcount, hsegment⟩ := conditions_consumed_once ['a'] crossed
  have hfires := (hbranch (question :: between) filter _ true hsplit hwanted).1.2
  refine ⟨hsplit, hwanted, hquiet, ?_, ?_, ?_⟩
  · exact hfires ⟨by decide, [], question, between, rfl, by decide, hquiet, by decide⟩
  · exact Nat.le_trans hcount (by decide)
  · exact hsegment _ _ (crossed.drop 6) (by decide) (by decide)

end TagTemplate
