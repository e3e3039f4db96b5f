import TagFilter.Proofs.Filter.Groups

/-!
# Unreadable terms

A text is an *unreadable term* when no filter can be read from any text in which it stands in the
place of a term, whatever has been read before it.  Joining texts by connectives and parentheses
keeps this: a text that is made test by test is read as a filter only if the text of every test is
read as a term (`Filter.exists_ofText?_textWith_iff`).
-/

namespace TagFilter

/-- A filter is read from a partial filter and a text that goes on from there. -/
def PartialFilter.Reads (s : PartialFilter) (text : List Char) (f : Filter) : Prop :=
  ∃ tokens, readChars text = (tokens, none) ∧ s.readAll none tokens = .ok f

/-- What may stand behind a term: nothing, the end of a group, or a connective. -/
inductive FollowsTerm : List Char → Prop where
  | nil : FollowsTerm []
  | closing (rest : List Char) : FollowsTerm (')' :: rest)
  | and (rest : List Char) : FollowsTerm (" and ".toList ++ rest)
  | or (rest : List Char) : FollowsTerm (" or ".toList ++ rest)

/-- No filter is read from a text that holds this one in the place of a term. -/
def Unreadable (text : String) : Prop :=
  ∀ outer level rest f, FollowsTerm rest →
    ¬ PartialFilter.Reads ⟨outer, level, .start⟩ (text.toList ++ rest) f

theorem FollowsTerm.startsIn {rest : List Char} (h : FollowsTerm rest) :
    StartsIn isSeparator rest := by
  cases h with
  | nil => exact startsIn_nil _
  | closing rest | and rest | or rest => exact startsIn_cons rfl _

namespace PartialFilter

variable {s t : PartialFilter} {text rest : List Char} {f : Filter}

/-! ### Reading on -/

/-- After a token the filter is read from what the token has made of the partial filter. -/
theorem Reads.after {token : Token} (h : s.Reads text f) (hscan : scan text = .token token rest) :
    ∃ t, s.step token = .ok t ∧ t.Reads rest f := by
  obtain ⟨tokens, hread, hall⟩ := h
  rw [readChars_token hscan] at hread
  obtain ⟨rfl, hstop⟩ := Prod.mk.inj hread
  rw [readAll] at hall
  split at hall
  · next t hstep => exact ⟨t, hstep, _, Prod.ext rfl hstop, hall⟩
  · cases hall

theorem Reads.not_stopped (h : s.Reads text f) (stop : Stop) : scan text ≠ .stopped stop := by
  intro hscan
  obtain ⟨tokens, hread, -⟩ := h
  rw [readChars_stopped hscan] at hread
  cases hread

/-- A filter that is read from a text without tokens is finished. -/
theorem Reads.finish_eq (h : s.Reads [] f) : s.finish = .ok f := by
  obtain ⟨tokens, hread, hall⟩ := h
  rw [readChars_finished rfl] at hread
  cases hread
  exact hall

/-- After the tokens of a text the filter is read from what they have made of the partial filter. -/
theorem Reads.after_run {a : String} {xs : List Token} (h : s.Reads (a.toList ++ rest) f)
    (ha : tokenize a = .ok xs) (hrun : Run s xs t) (hrest : StartsIn isSeparator rest) :
    t.Reads rest f := by
  obtain ⟨tokens, hread, hall⟩ := h
  rw [readChars_append hrest (tokenize_eq_ok_iff.mp ha)] at hread
  obtain ⟨rfl, hstop⟩ := Prod.mk.inj hread
  rw [readAll_of_run hrun] at hall
  exact ⟨_, Prod.ext rfl hstop, hall⟩

/-- A blank in front of a text does not count. -/
theorem Reads.of_blank (h : s.Reads (' ' :: text) f) : s.Reads text f := by
  obtain ⟨tokens, hread, hall⟩ := h
  have hblank : readChars ([' '] ++ text) = readChars text :=
    readChars_blanks_append (by decide) text
  exact ⟨tokens, hblank.symm.trans hread, hall⟩

end PartialFilter

open PartialFilter

theorem ofText?_eq_ok_iff_reads {text : String} {f : Filter} :
    Filter.ofText? text = .ok f ↔ PartialFilter.start.Reads text.toList f := by
  rw [ofText?_eq_ok_iff_exists_tokens]
  simp only [tokenize_eq_ok_iff]
  exact Iff.rfl

/-- An unreadable term is no filter. -/
theorem Unreadable.ofText?_ne_ok {text : String} (h : Unreadable text) (f : Filter) :
    Filter.ofText? text ≠ .ok f := by
  intro hread
  have hreads := ofText?_eq_ok_iff_reads.mp hread
  rw [← List.append_nil text.toList] at hreads
  exact h [] .start [] f .nil hreads

/-! ### Joining -/

section Joining

variable {a b : String}

/-- An unreadable term is so in front of a connective, too. -/
theorem Unreadable.before {connective : String} (h : Unreadable a)
    (hfollows : ∀ rest, FollowsTerm (connective.toList ++ rest)) (b : String) :
    Unreadable (a ++ connective ++ b) := by
  intro outer level rest f _ hreads
  rw [String.toList_append, String.toList_append, List.append_assoc, List.append_assoc] at hreads
  exact h outer level _ f (hfollows (b.toList ++ rest)) hreads

/-- After a text and a connective the filter is read from what stands behind them. -/
theorem PartialFilter.Reads.after_connective {s t : PartialFilter} {word joined : String}
    {xs ys : List Token} {rest : List Char} {f : Filter} (hjoined : joined = " " ++ word ++ " ")
    (h : s.Reads ((a ++ joined ++ b).toList ++ rest) f) (ha : tokenize a = .ok xs)
    (hword : tokenize word = .ok ys) (hrun : Run s (xs ++ ys) t) :
    t.Reads (b.toList ++ rest) f := by
  have hlist : (a ++ joined ++ b).toList ++ rest =
      (a ++ " " ++ word).toList ++ (' ' :: (b.toList ++ rest)) := by
    simp only [hjoined, String.toList_append, List.append_assoc]
    rfl
  rw [hlist] at h
  exact (h.after_run (tokenize_append_blank ha hword) hrun (startsIn_cons rfl _)).of_blank

theorem Unreadable.and_right {t : Term} (ha : SpellsTerm a t) (h : Unreadable b) :
    Unreadable (a ++ " and " ++ b) := by
  intro outer level rest f hrest hreads
  obtain ⟨p, hp, -⟩ := ha
  obtain ⟨pending, hrun, hterm⟩ := p.run outer level
  have hstep : PartialFilter.step ⟨outer, level, pending⟩ .and =
      .ok ⟨outer, level.addTerm p.term, .start⟩ := step_of_endsTerm hterm rfl
  have hconnective : " and " = " " ++ "and" ++ " " := rfl
  have hall := hrun.append (Run.single hstep)
  exact h outer _ rest f hrest (hreads.after_connective hconnective hp tokenize_and hall)

theorem Unreadable.or_right {c : Conjunction} (ha : SpellsConjunction a c) (h : Unreadable b) :
    Unreadable (a ++ " or " ++ b) := by
  intro outer level rest f hrest hreads
  obtain ⟨d, hd, -⟩ := ha
  obtain ⟨terms, pending, t, hrun, hterm, -⟩ := d.run outer level.alternatives level.terms
  have hstep : PartialFilter.step ⟨outer, ⟨level.alternatives, terms⟩, pending⟩ .or =
      .ok ⟨outer, (Level.addTerm ⟨level.alternatives, terms⟩ t).finishConjunction, .start⟩ :=
    step_of_endsTerm hterm rfl
  have hconnective : " or " = " " ++ "or" ++ " " := rfl
  have hall := hrun.append (Run.single hstep)
  exact h outer _ rest f hrest (hreads.after_connective hconnective hd tokenize_or hall)

/-- A group whose first term is unreadable is unreadable. -/
theorem Unreadable.parenthesized (h : Unreadable a) : Unreadable (parenthesized a) := by
  intro outer level rest f _ hreads
  have hlist : (TagFilter.parenthesized a).toList ++ rest =
      '(' :: (a.toList ++ (')' :: rest)) := by
    rw [TagFilter.parenthesized, String.toList_append, String.toList_append, List.append_assoc]
    rfl
  rw [hlist] at hreads
  obtain ⟨s, hstep, hinner⟩ := hreads.after (show scan ('(' :: _) = .token .opening _ from rfl)
  cases hstep
  exact h _ _ _ f (.closing rest) hinner

end Joining

section Joined

variable {α : Type} {text : α → String} {xs : List α}

/-- Texts that are joined by a connective are unreadable when one of them is, provided that the
connective can follow each of the others. -/
theorem unreadable_intercalate {connective : String} (IsReadable : String → Prop)
    (hfollows : ∀ rest, FollowsTerm (connective.toList ++ rest))
    (hright : ∀ a b, IsReadable a → Unreadable b → Unreadable (a ++ connective ++ b))
    (h : ∀ x ∈ xs, IsReadable (text x) ∨ Unreadable (text x))
    (hsome : ∃ x ∈ xs, Unreadable (text x)) :
    Unreadable (String.intercalate connective (xs.map text)) := by
  induction xs with
  | nil =>
    obtain ⟨x, hx, -⟩ := hsome
    cases hx
  | cons x xs ih =>
    cases xs with
    | nil =>
      obtain ⟨y, hy, hunreadable⟩ := hsome
      rw [List.mem_singleton.mp hy] at hunreadable
      rw [List.map_singleton, String.intercalate_singleton]
      exact hunreadable
    | cons y ys =>
      rw [List.map_cons, List.map_cons, String.intercalate_cons_cons, ← List.map_cons]
      rcases h x List.mem_cons_self with hx | hx
      · by_cases hfirst : Unreadable (text x)
        · exact hfirst.before hfollows _
        · refine hright _ _ hx (ih (fun z hz => h z (List.mem_cons_of_mem _ hz)) ?_)
          obtain ⟨z, hz, hunreadable⟩ := hsome
          rcases List.mem_cons.mp hz with rfl | hz
          · exact absurd hunreadable hfirst
          · exact ⟨z, hz, hunreadable⟩
      · exact hx.before hfollows _

theorem unreadable_joinAnd (h : ∀ x ∈ xs, (∃ t, SpellsTerm (text x) t) ∨ Unreadable (text x))
    (hsome : ∃ x ∈ xs, Unreadable (text x)) : Unreadable (joinAnd (xs.map text)) := by
  refine unreadable_intercalate (fun a => ∃ t, SpellsTerm a t) .and ?_ h hsome
  rintro a b ⟨t, ha⟩ hb
  exact hb.and_right ha

theorem unreadable_joinOr
    (h : ∀ x ∈ xs, (∃ c, SpellsConjunction (text x) c) ∨ Unreadable (text x))
    (hsome : ∃ x ∈ xs, Unreadable (text x)) : Unreadable (joinOr (xs.map text)) := by
  refine unreadable_intercalate (fun a => ∃ c, SpellsConjunction a c) .or ?_ h hsome
  rintro a b ⟨c, ha⟩ hb
  exact hb.or_right ha

end Joined

/-! ### Settled texts -/

/-- The text is read as a term, or it is an unreadable term. -/
def Settled (text : String) : Prop :=
  (∃ t, SpellsTerm text t) ∨ Unreadable text

/-- A text that is read as a term is readable. -/
theorem SpellsTerm.not_unreadable {text : String} {t : Term} (h : SpellsTerm text t) :
    ¬ Unreadable text := fun hunreadable =>
  hunreadable.ofText?_ne_ok [[t]] (ofText?_eq_ok_iff.mpr h.conjunction.filter)

section Settled

variable {α : Type} {text : α → String} {xs : List α}

/-- A text that is made from settled parts is settled, and is read as a term only if its parts
are. -/
theorem settled_of_parts {joined : String}
    (hall : (∀ x ∈ xs, ∃ t, SpellsTerm (text x) t) → ∃ t, SpellsTerm joined t)
    (hsome : (∃ x ∈ xs, Unreadable (text x)) → Unreadable joined)
    (h : ∀ x ∈ xs, Settled (text x)) :
    Settled joined ∧
      ((∃ t, SpellsTerm joined t) ↔ ∀ x ∈ xs, ∃ t, SpellsTerm (text x) t) := by
  by_cases hunreadable : ∃ x ∈ xs, Unreadable (text x)
  · have hjoined := hsome hunreadable
    refine ⟨Or.inr hjoined, fun ⟨t, ht⟩ => absurd hjoined ht.not_unreadable, fun hspells => ?_⟩
    obtain ⟨x, hx, hnot⟩ := hunreadable
    obtain ⟨t, ht⟩ := hspells x hx
    exact absurd hnot ht.not_unreadable
  · have hspells : ∀ x ∈ xs, ∃ t, SpellsTerm (text x) t := fun x hx =>
      (h x hx).resolve_right fun hnot => hunreadable ⟨x, hx, hnot⟩
    exact ⟨Or.inl (hall hspells), fun _ => hspells, fun _ => hall hspells⟩

theorem settled_grouped_or (hne : xs ≠ []) (h : ∀ x ∈ xs, Settled (text x)) :
    Settled (grouped " or " (xs.map text)) ∧
      ((∃ t, SpellsTerm (grouped " or " (xs.map text)) t) ↔
        ∀ x ∈ xs, ∃ t, SpellsTerm (text x) t) := by
  refine settled_of_parts (fun hspells => ?_) (fun hsome => ?_) h
  · obtain ⟨read, hread⟩ := exists_forall_mem hspells
    exact ⟨_, spells_grouped_or hne hread⟩
  · match xs, hne with
    | [x], _ =>
      obtain ⟨y, hy, hunreadable⟩ := hsome
      rwa [List.mem_singleton.mp hy] at hunreadable
    | x :: y :: rest, _ =>
      have hparts : ∀ z ∈ x :: y :: rest,
          (∃ c, SpellsConjunction (text z) c) ∨ Unreadable (text z) :=
        fun z hz => (h z hz).imp_left fun ⟨t, ht⟩ => ⟨[t], ht.conjunction⟩
      exact (unreadable_joinOr hparts hsome).parenthesized

theorem settled_grouped_and (hne : xs ≠ []) (h : ∀ x ∈ xs, Settled (text x)) :
    Settled (grouped " and " (xs.map text)) ∧
      ((∃ t, SpellsTerm (grouped " and " (xs.map text)) t) ↔
        ∀ x ∈ xs, ∃ t, SpellsTerm (text x) t) := by
  refine settled_of_parts (fun hspells => ?_) (fun hsome => ?_) h
  · obtain ⟨read, hread⟩ := exists_forall_mem hspells
    exact ⟨_, spells_grouped_and hne hread⟩
  · match xs, hne with
    | [x], _ =>
      obtain ⟨y, hy, hunreadable⟩ := hsome
      rwa [List.mem_singleton.mp hy] at hunreadable
    | x :: y :: rest, _ => exact (unreadable_joinAnd h hsome).parenthesized

end Settled

/-! ### Whole filters -/

section Whole

variable {text : Test → String}

/-- The text of a term is settled, and it is read as a term exactly when those of its tests are. -/
def Term.SettledBy (text : Test → String) (t : Term) : Prop :=
  Settled (t.textWith text) ∧
    ((∃ u, SpellsTerm (t.textWith text) u) ↔ ∀ test ∈ t.tests, ∃ u, SpellsTerm (text test) u)

theorem Term.SettledBy.unreadable {t : Term} (h : t.SettledBy text)
    (hsome : ∃ test ∈ t.tests, Unreadable (text test)) : Unreadable (t.textWith text) := by
  refine h.1.resolve_left fun hspells => ?_
  obtain ⟨test, htest, hunreadable⟩ := hsome
  obtain ⟨u, hu⟩ := h.2.mp hspells test htest
  exact hu.not_unreadable hunreadable

/-- The text of a filter is unreadable when that of one of its tests is. -/
theorem Filter.unreadable_of_terms {f : Filter} (hne : ∀ c ∈ f, c ≠ [])
    (h : ∀ c ∈ f, ∀ t ∈ c, Term.SettledBy text t)
    (hsome : ∃ test ∈ Filter.tests f, Unreadable (text test)) :
    Unreadable (Filter.textWith text f) := by
  have hsettled : ∀ c ∈ f, ∀ t ∈ c, Settled (Term.textWith text t) :=
    fun c hc t ht => (h c hc t ht).1
  refine unreadable_joinOr (fun c hc => ?_) ?_
  · by_cases hunreadable : ∃ t ∈ c, Unreadable (Term.textWith text t)
    · exact Or.inr (unreadable_joinAnd (hsettled c hc) hunreadable)
    · have hspells : ∀ t ∈ c, ∃ u, SpellsTerm (t.textWith text) u := fun t ht =>
        (hsettled c hc t ht).resolve_right fun hnot => hunreadable ⟨t, ht, hnot⟩
      obtain ⟨read, hread⟩ := exists_forall_mem hspells
      exact Or.inl ⟨_, spells_joinAnd (hne c hc) hread⟩
  · obtain ⟨test, htest, hunreadable⟩ := hsome
    obtain ⟨c, hc, t, ht, hmem⟩ := Filter.mem_tests.mp htest
    have hterm := (h c hc t ht).unreadable ⟨test, hmem, hunreadable⟩
    exact ⟨c, hc, unreadable_joinAnd (hsettled c hc) ⟨t, ht, hterm⟩⟩

/-- The text of a term is settled when those of its tests are. -/
theorem Term.settledBy {t : Term} (hproper : t.IsProper)
    (h : ∀ test ∈ t.tests, Settled (text test)) : t.SettledBy text := by
  induction t with
  | test u =>
    refine ⟨h u List.mem_cons_self, fun hspells => ?_, fun hspells => hspells u List.mem_cons_self⟩
    exact List.forall_mem_singleton.mpr hspells
  | group body ih =>
    have hbody := Term.isProper_group.mp hproper
    refine settled_of_parts (fun hspells => ?_) (fun hsome => ?_) h
    · obtain ⟨read, hread⟩ := exists_forall_mem hspells
      exact ⟨_, Term.spells_textWith hproper hread⟩
    · rw [Term.tests_group] at h hsome
      rw [Term.textWith_group]
      have hterms : ∀ c ∈ body, ∀ t ∈ c, Term.SettledBy text t := fun c hc t ht =>
        ih c hc t ht ((hbody.2 c hc).2 t ht) fun test htest =>
          h test (Filter.mem_tests.mpr ⟨c, hc, t, ht, htest⟩)
      exact (Filter.unreadable_of_terms (fun c hc => (hbody.2 c hc).1) hterms hsome).parenthesized

/-- A text that is made from a filter test by test is read as a filter exactly when the text of
every test is read as a term, provided that these texts are settled. -/
theorem Filter.exists_ofText?_textWith_iff {f : Filter} (hproper : Filter.IsProper f)
    (h : ∀ test ∈ Filter.tests f, Settled (text test)) :
    (∃ g, Filter.ofText? (Filter.textWith text f) = .ok g) ↔
      ∀ test ∈ Filter.tests f, ∃ t, SpellsTerm (text test) t := by
  constructor
  · rintro ⟨g, hg⟩ test htest
    refine (h test htest).resolve_right fun hunreadable => ?_
    have hterms : ∀ c ∈ f, ∀ t ∈ c, Term.SettledBy text t := fun c hc t ht =>
      Term.settledBy ((hproper.2 c hc).2 t ht) fun test htest =>
        h test (Filter.mem_tests.mpr ⟨c, hc, t, ht, htest⟩)
    have hall := Filter.unreadable_of_terms (fun c hc => (hproper.2 c hc).1) hterms
      ⟨test, htest, hunreadable⟩
    exact hall.ofText?_ne_ok g hg
  · exact Filter.exists_ofText?_textWith hproper

end Whole

end TagFilter
