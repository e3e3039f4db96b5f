import TagFilter.Proofs.Evaluation.Chain

/-!
# The hops of a search

The search of a wildcard follows the first values of its path from record to record.  It remembers
the refs that it has followed and gives up at the first one that comes again
(`Resolver.searchRound`).

Every hop but the first one starts at a record of the store that has not been met before, so that
the answer is there after at most one hop more than there are records
(`searchWithin_eq_some_holds`).  Giving up loses nothing: if the chain of first values ever comes to
the target, it does so within these hops (`Test.holds_reaches_iff_exists_chainFrom`).
-/

namespace TagFilter

/-- The answer of the search for a target from a record, unless it takes more than a number of hops.
`met` holds the ids of the refs that have been followed to the record. -/
def Resolver.searchWithin (resolver : Resolver) (p : Path) (target : String) (hops : Nat)
    (met : List String) (record : Record) : Option Bool :=
  loopWithin (resolver.searchRound p target) hops ⟨met, record⟩

section Search

variable {store : Option Store} {p : Path} {hops : Nat} {met : List String}
  {record next : Record} {r : Ref}

/-- A search ends at a ref to the target. -/
theorem searchRound_of_id_eq {target : String}
    (hhead : (resolvePath store record p).head? = some (.ref r)) (hid : r.id = target) :
    (Resolver.ofStore store).searchRound p target ⟨met, record⟩ = .done true := by
  have hvalue : ((Resolver.ofStore store).resolvePath record p).head? = some (.ref r) := hhead
  unfold Resolver.searchRound
  simp only [hvalue, if_pos hid]

/-- A search goes on from the record of another ref, if it has not been followed before. -/
theorem searchRound_of_resolve? {target : String}
    (hhead : (resolvePath store record p).head? = some (.ref r)) (hid : r.id ≠ target)
    (hmet : r.id ∉ met) (hresolve : resolve? store r = some next) :
    (Resolver.ofStore store).searchRound p target ⟨met, record⟩ = .next ⟨r.id :: met, next⟩ := by
  have hvalue : ((Resolver.ofStore store).resolvePath record p).head? = some (.ref r) := hhead
  have hfind : (Resolver.ofStore store).find? r = some next := hresolve
  unfold Resolver.searchRound
  simp only [hvalue, if_neg hid, if_neg hmet, hfind]

/-- The three ways of a round: the search finds the target, it goes on from the record of another
ref, or it gives up. -/
theorem searchRound_cases (store : Option Store) (p : Path) (target : String) (met : List String)
    (record : Record) :
    (∃ r, (resolvePath store record p).head? = some (.ref r) ∧ r.id = target) ∨
    (∃ r next, (resolvePath store record p).head? = some (.ref r) ∧
      resolve? store r = some next ∧
      (Resolver.ofStore store).searchRound p target ⟨met, record⟩ = .next ⟨r.id :: met, next⟩) ∨
    (Resolver.ofStore store).searchRound p target ⟨met, record⟩ = .done false := by
  by_cases hhead : ∃ r, (resolvePath store record p).head? = some (.ref r)
  · obtain ⟨r, hhead⟩ := hhead
    have hvalue : ((Resolver.ofStore store).resolvePath record p).head? = some (.ref r) := hhead
    by_cases hid : r.id = target
    · exact Or.inl ⟨r, hhead, hid⟩
    · by_cases hmet : r.id ∈ met
      · refine Or.inr (Or.inr ?_)
        unfold Resolver.searchRound
        simp only [hvalue, if_neg hid, if_pos hmet]
      · cases hresolve : resolve? store r with
        | none =>
          have hfind : (Resolver.ofStore store).find? r = none := hresolve
          refine Or.inr (Or.inr ?_)
          unfold Resolver.searchRound
          simp only [hvalue, if_neg hid, if_neg hmet, hfind]
        | some next =>
          exact Or.inr (Or.inl ⟨r, next, hhead, hresolve,
            searchRound_of_resolve? hhead hid hmet hresolve⟩)
  · refine Or.inr (Or.inr ?_)
    unfold Resolver.searchRound
    split
    · next r hvalue => exact absurd ⟨r, hvalue⟩ hhead
    · rfl

/-- A search that finds the target does so on the chain of first values. -/
theorem reachesWithin_of_searchWithin {target : Ref}
    (h : (Resolver.ofStore store).searchWithin p target.id hops met record = some true) :
    ReachesWithin store record p target hops := by
  unfold Resolver.searchWithin at h
  induction hops generalizing met record with
  | zero => cases h
  | succ hops ih =>
    rcases searchRound_cases store p target.id met record with
      ⟨r, hhead, hid⟩ | ⟨r, next, hhead, hresolve, hround⟩ | hround
    · exact .of_head hhead hid
    · rw [loopWithin_next hround] at h
      exact .of_next hhead hresolve (ih h)
    · rw [loopWithin_done hround] at h
      cases h

/-- A search finds the first ref to the target on its chain, since the chain meets no ref twice
before it. -/
theorem searchWithin_of_first {target : Ref} {n : Nat}
    (hchain : chainFrom store p n (resolvePath store record p).head? = some (.ref r))
    (hid : r.id = target.id)
    (hfirst : ∀ m < n, ∀ s, chainFrom store p m (resolvePath store record p).head? =
      some (.ref s) → s.id ≠ target.id ∧ s.id ∉ met) :
    (Resolver.ofStore store).searchWithin p target.id (n + 1) met record = some true := by
  unfold Resolver.searchWithin
  induction n generalizing met record with
  | zero => exact loopWithin_done (searchRound_of_id_eq hchain hid)
  | succ n ih =>
    cases hhead : (resolvePath store record p).head? with
    | none =>
      rw [hhead, chainFrom_none] at hchain
      cases hchain
    | some v =>
      rw [hhead] at hchain hfirst
      obtain ⟨first, next, rfl, hresolve, u, hnext, hrest⟩ := chainFrom_succ_eq_some hchain
      have hstep (m : Nat) : chainFrom store p (m + 1) (some (.ref first)) =
          chainFrom store p m (resolvePath store next p).head? := by
        rw [chainFrom, hresolve, Option.bind_some]
      obtain ⟨hnot, hmet⟩ := hfirst 0 (Nat.succ_pos n) first rfl
      rw [loopWithin_next (searchRound_of_resolve? hhead hnot hmet hresolve)]
      rw [hstep] at hchain
      refine ih hchain fun m hm s hs => ?_
      obtain ⟨htarget, hunmet⟩ := hfirst (m + 1) (Nat.succ_lt_succ hm) s ((hstep m).trans hs)
      refine ⟨htarget, fun hmem => ?_⟩
      rcases List.mem_cons.mp hmem with hsame | hmem
      · -- a chain that came back to the first ref would reach the target earlier from there
        obtain ⟨k, hk⟩ : ∃ k, n = m + (k + 1) := ⟨n - m - 1, by omega⟩
        rw [hk, chainFrom_add, hs, chainFrom_succ_congr hsame] at hchain
        exact (hfirst (k + 1) (by omega) r hchain).1 hid
      · exact hunmet hmem

/-- What a chain comes to within some hops is found by the search within these hops. -/
theorem searchWithin_of_reachesWithin {target : Ref}
    (h : ReachesWithin store record p target hops) :
    (Resolver.ofStore store).searchWithin p target.id hops [] record = some true := by
  obtain ⟨n, hn, r, hid, hchain⟩ := h
  -- induction on the steps: if the target is met earlier, the chain is cut off there
  induction n using Nat.strongRecOn generalizing r with
  | ind n ih =>
    by_cases hearlier : ∃ m < n, ∃ s : Ref, s.id = target.id ∧
        chainFrom store p m (resolvePath store record p).head? = some (.ref s)
    · obtain ⟨m, hm, s, hs, hmet⟩ := hearlier
      exact ih m hm (Nat.lt_trans hm hn) s hs hmet
    · refine loopWithin_of_le (Nat.succ_le_of_lt hn) (searchWithin_of_first hchain hid ?_)
      intro m hm s hs
      exact ⟨fun htarget => hearlier ⟨m, hm, s, htarget, hs⟩, List.not_mem_nil⟩

/-- A search finds the target within a number of hops exactly when the chain of first values comes
to it within them. -/
theorem searchWithin_eq_some_true_iff {target : Ref} :
    (Resolver.ofStore store).searchWithin p target.id hops [] record = some true ↔
      ReachesWithin store record p target hops :=
  ⟨reachesWithin_of_searchWithin, searchWithin_of_reachesWithin⟩

/-- The answer of a search within any number of hops is that of the wildcard. -/
theorem Test.holds_reaches_of_searchWithin {cx : Context} {target : Ref} {answer : Bool}
    (h : (Resolver.ofStore cx.store).searchWithin p target.id hops [] cx.record = some answer) :
    (Test.reaches p target).holds cx = answer := by
  have hanswer : (Test.reaches p target).answer cx.setting = some answer := loop_of_loopWithin h
  exact Option.some.inj ((Test.answer_eq_some cx _).symm.trans hanswer)

/-- The answer of a wildcard is there after at most one hop more than there are records. -/
theorem searchWithin_eq_some_holds (cx : Context) (p : Path) (target : Ref) :
    (Resolver.ofStore cx.store).searchWithin p target.id (cx.records.size + 1) [] cx.record =
      some ((Test.reaches p target).holds cx) := by
  have hstart : (cx.records.unmet []).length < cx.records.size + 1 := by
    rw [NameMap.length_unmet_nil]
    exact Nat.lt_succ_self _
  have hends : ((Resolver.ofStore cx.store).searchWithin p target.id (cx.records.size + 1) []
      cx.record).isSome = true :=
    isSome_loopWithin (fun s : Resolver.Search => (cx.records.unmet s.met).length)
      (fun _ _ h => Resolver.length_unmet_lt_of_searchRound h) hstart
  obtain ⟨answer, hanswer⟩ := Option.isSome_iff_exists.mp hends
  rw [hanswer, Test.holds_reaches_of_searchWithin hanswer]

/-- A wildcard holds exactly when its chain comes to the target. -/
theorem Test.holds_reaches_iff {cx : Context} {target : Ref} :
    (Test.reaches p target).holds cx = true ↔
      ∃ hops, ReachesWithin cx.store cx.record p target hops := by
  constructor
  · intro h
    exact ⟨_, reachesWithin_of_searchWithin
      ((searchWithin_eq_some_holds cx p target).trans (congrArg some h))⟩
  · rintro ⟨hops, hreaches⟩
    exact Test.holds_reaches_of_searchWithin (searchWithin_of_reachesWithin hreaches)

end Search

/-- The search of a wildcard gives its answer after at most one hop more than there are records.  It
succeeds exactly when the chain of first values comes to a ref to the target in any number of
steps, and then it has come to one within these hops. -/
theorem Test.holds_reaches_iff_exists_chainFrom (cx : Context) (p : Path) (target : Ref) :
    (Resolver.ofStore cx.store).searchWithin p target.id (cx.records.size + 1) [] cx.record =
      some ((Test.reaches p target).holds cx) ∧
    ((Test.reaches p target).holds cx = true ↔
      ∃ n r, chainFrom cx.store p n (resolvePath cx.store cx.record p).head? = some (.ref r) ∧
        r.id = target.id) ∧
    ((Test.reaches p target).holds cx = true ↔
      ReachesWithin cx.store cx.record p target (cx.records.size + 1)) := by
  have hsearch := searchWithin_eq_some_holds cx p target
  refine ⟨hsearch, ?_, ?_⟩
  · rw [Test.holds_reaches_iff]
    constructor
    · rintro ⟨-, n, -, r, hid, hchain⟩
      exact ⟨n, r, hchain, hid⟩
    · rintro ⟨n, r, hchain, hid⟩
      exact ⟨n + 1, n, Nat.lt_succ_self n, r, hid, hchain⟩
  · constructor
    · intro h
      rw [h] at hsearch
      exact reachesWithin_of_searchWithin hsearch
    · intro h
      exact Test.holds_reaches_iff.mpr ⟨_, h⟩

end TagFilter
