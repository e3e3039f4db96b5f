import TagFilter.Filter.Basic
import TagFilter.Namespace.Related

/-!
# Evaluation

Whether a filter holds of a record.  Type tests and relationship tests ask a namespace, and refs are
followed by a resolver; what is missing makes a test fail and is never an error.

A `Setting` has any namespace and any resolver.  Filters ask their terms in order and ask no more
than they need, and there is no answer when a search goes on forever.  In a `Context` the namespace
is a set of defs and the resolver is a store.  There every filter has an answer
(`Node.answer_eq_some`), which is what `Node.holds` says.
-/

namespace TagFilter

/-! ### Any namespace and any resolver -/

/-- What a filter is evaluated on: a record, and perhaps a namespace and a resolver. -/
structure Setting where
  /-- The record. -/
  record : Record
  /-- The namespace that knows types and relationships. -/
  types : Option Taxonomy := none
  /-- What finds the records of refs. -/
  resolver : Option Resolver := none

/-- The namespace of a setting, if there is one, tells refs apart by their ids alone. -/
def Setting.IgnoresDisplays (s : Setting) : Prop :=
  ∀ ns, s.types = some ns → ns.IgnoresDisplays

/-- The values that a path leads to. -/
def Setting.valuesOf (s : Setting) (p : Path) : List Value :=
  (Resolver.ofOption s.resolver).resolvePath s.record p

/-- The answer of a test. -/
def Test.answer (s : Setting) : Test → Option Bool
  | .has p => some (!(s.valuesOf p).isEmpty)
  | .missing p => some (s.valuesOf p).isEmpty
  | .compare p op operand =>
    some ((s.valuesOf p).any fun value => value.kind == operand.kind && op.holds value operand)
  | .isA type =>
    match s.types with
    | some ns => some (ns.fits s.record type.name)
    | none => some false
  | .related r target =>
    match s.types with
    | some ns => ns.isRelated? ⟨s.record, r, target, s.resolver⟩
    | none => some false
  | .reaches p target => (Resolver.ofOption s.resolver).search p target.id s.record

/-- Whether all answers are positive, of which there is at least one, asked in order up to the first
negative one. -/
def allAnswers (answers : List (Option Bool)) : Option Bool :=
  if answers.isEmpty then some false else answers.allM id

/-- Whether all answers of one of several groups are positive, asked in order up to the first such
group. -/
def anyAnswers (answers : List (List (Option Bool))) : Option Bool :=
  answers.anyM allAnswers

/-- The answer of a term. -/
def Term.answer (s : Setting) (t : Term) : Option Bool :=
  t.fold (Test.answer s) anyAnswers

/-- The answer of a conjunction; it is negative without terms. -/
def Conjunction.answer (s : Setting) (c : Conjunction) : Option Bool :=
  allAnswers (c.map (Term.answer s))

/-- The answer of a filter. -/
def Filter.answer (s : Setting) (f : Filter) : Option Bool :=
  anyAnswers (f.map (List.map (Term.answer s)))

/-- The answer of a node. -/
def Node.answer (s : Setting) : Node → Option Bool
  | .filter f => Filter.answer s f
  | .conjunction c => Conjunction.answer s c
  | .term t => t.answer s

/-- The answer of a group is that of its filter. -/
@[simp] theorem Term.answer_group (s : Setting) (f : Filter) :
    (Term.group f).answer s = Filter.answer s f := by
  simp only [Term.answer, Term.fold_group, Filter.answer]
  rfl

/-! ### Answers that are there -/

/-- Whether all of some answers, of which there is at least one, are positive. -/
def allOf (answers : List Bool) : Bool :=
  !answers.isEmpty && answers.all id

/-- Whether all answers of one of several groups are positive. -/
def anyOfAll (answers : List (List Bool)) : Bool :=
  answers.any allOf

theorem allAnswers_map_some (answers : List Bool) :
    allAnswers (answers.map some) = some (allOf answers) := by
  have hall : (answers.map some).allM id = some (answers.all id) := by
    induction answers with
    | nil => rfl
    | cons answer answers ih =>
      cases answer with
      | false => rfl
      | true => exact ih
  unfold allAnswers allOf
  rw [List.isEmpty_map, hall]
  cases answers <;> rfl

theorem anyAnswers_map_some (answers : List (List Bool)) :
    anyAnswers (answers.map (List.map some)) = some (anyOfAll answers) := by
  unfold anyAnswers anyOfAll
  induction answers with
  | nil => rfl
  | cons answer answers ih =>
    rw [List.map_cons, List.anyM, allAnswers_map_some, List.any_cons]
    cases allOf answer with
    | false => exact ih
    | true => rfl

/-- A term has an answer when all of its tests do. -/
theorem Term.answer_eq_some {s : Setting} {value : Test → Bool} {t : Term}
    (h : ∀ test ∈ t.tests, test.answer s = some (value test)) :
    t.answer s = some (t.fold value anyOfAll) := by
  induction t with
  | test u => exact h u List.mem_cons_self
  | group body ih =>
    rw [Term.tests_group] at h
    unfold answer
    rw [fold_group, fold_group, ← anyAnswers_map_some, List.map_map]
    refine congrArg anyAnswers (List.map_congr_left fun c hc => ?_)
    rw [Function.comp_apply, List.map_map]
    refine List.map_congr_left fun t ht => ih c hc t ht fun test htest => ?_
    exact h test (Filter.mem_tests.mpr ⟨c, hc, t, ht, htest⟩)

/-! ### Defs and stores -/

/-- What a filter is evaluated on, with the defs of a namespace and the records of a store. -/
structure Context where
  /-- The record. -/
  record : Record
  /-- The namespace that knows types and relationships. -/
  types : Option Namespace := none
  /-- The store that resolves refs. -/
  store : Option Store := none

/-- The setting of a context. -/
def Context.setting (cx : Context) : Setting where
  record := cx.record
  types := cx.types.map Namespace.taxonomy
  resolver := cx.store.map Store.resolver

/-- The records that a context can meet. -/
def Context.records (cx : Context) : NameMap Record :=
  storedRecords cx.store

/-- The values that a path leads to from a record. -/
def resolvePath (store : Option Store) (record : Record) (p : Path) : List Value :=
  (Resolver.ofStore store).resolvePath record p

/-- In a context every test has an answer. -/
theorem Test.isSome_answer (cx : Context) (test : Test) :
    (test.answer cx.setting).isSome = true := by
  cases test with
  | has | missing | compare => rfl
  | isA type =>
    unfold answer Context.setting
    cases cx.types <;> rfl
  | related r target =>
    unfold answer Context.setting
    cases cx.types with
    | none => rfl
    | some ns => exact ns.isSome_isRelated? cx.store cx.record r target
  | reaches p target => exact Resolver.isSome_search cx.store p target.id cx.record

/-- Whether a test holds. -/
def Test.holds (cx : Context) (test : Test) : Bool :=
  (test.answer cx.setting).get (test.isSome_answer cx)

theorem Test.answer_eq_some (cx : Context) (test : Test) :
    test.answer cx.setting = some (test.holds cx) :=
  (Option.some_get _).symm

theorem Term.answer_eq_fold (cx : Context) (t : Term) :
    t.answer cx.setting = some (t.fold (Test.holds cx) anyOfAll) :=
  Term.answer_eq_some fun test _ => test.answer_eq_some cx

/-- In a context every node has an answer. -/
theorem Node.isSome_answer (cx : Context) (n : Node) : (n.answer cx.setting).isSome = true := by
  cases n with
  | filter f =>
    rw [answer, ← Term.answer_group, Term.answer_eq_fold]
    rfl
  | conjunction c =>
    have hterms : c.map (Term.answer cx.setting) =
        (c.map fun t => t.fold (Test.holds cx) anyOfAll).map some := by
      rw [List.map_map]
      exact List.map_congr_left fun t _ => t.answer_eq_fold cx
    rw [answer, Conjunction.answer, hterms, allAnswers_map_some]
    rfl
  | term t =>
    rw [answer, Term.answer_eq_fold]
    rfl

/-- Whether a node holds. -/
def Node.holds (cx : Context) (n : Node) : Bool :=
  (n.answer cx.setting).get (n.isSome_answer cx)

/-- Whether a term holds. -/
def Term.holds (cx : Context) (t : Term) : Bool :=
  Node.holds cx (.term t)

/-- Whether a conjunction holds. -/
def Conjunction.holds (cx : Context) (c : Conjunction) : Bool :=
  Node.holds cx (.conjunction c)

/-- Whether a filter holds. -/
def Filter.holds (cx : Context) (f : Filter) : Bool :=
  Node.holds cx (.filter f)

/-- In a context, whether a node holds is its answer. -/
theorem Node.answer_eq_some (cx : Context) (n : Node) :
    n.answer cx.setting = some (n.holds cx) :=
  (Option.some_get _).symm

/-- A term holds when the answers to its tests say so. -/
theorem Term.holds_eq_fold (cx : Context) (t : Term) :
    t.holds cx = t.fold (Test.holds cx) anyOfAll :=
  Option.some.inj ((Node.answer_eq_some cx (.term t)).symm.trans (t.answer_eq_fold cx))

/-- A group holds when its filter does. -/
@[simp] theorem Term.holds_group (cx : Context) (f : Filter) :
    (Term.group f).holds cx = Filter.holds cx f := by
  have hanswers : (Term.group f).answer cx.setting = Filter.answer cx.setting f :=
    Term.answer_group cx.setting f
  exact Option.some.inj ((Node.answer_eq_some cx (.term (.group f))).symm.trans
    (hanswers.trans (Node.answer_eq_some cx (.filter f))))

/-- The records of a store on which a filter holds, in ascending order of ids. -/
def Store.query (s : Store) (types : Option Namespace) (f : Filter) : List Record :=
  s.records.values.filter fun record => Filter.holds ⟨record, types, some s⟩ f

/-- Whether a filter holds of the record of an id. -/
def Store.matches (s : Store) (f : Filter) (id : String) : Bool :=
  match s.find? id with
  | some record => Filter.holds ⟨record, none, some s⟩ f
  | none => false

end TagFilter
