import Mathlib.Data.List.Basic
import TagFilter.Proofs.Namespace.Related
import TagFilter.Proofs.Namespace.Supertypes

/-!
# Terms of relationships

A relationship with a term is narrower than the relationship with a supertype of the term, and this
one is narrower than the relationship without a term.  A wider relationship has all ref tags of the
narrower one (`refTags_sublist`), so that a record points at all that it pointed at before, and from
there refs lead on as before.  No record is lost by a wider term (`isRelated_of_narrows`).
-/

namespace TagFilter

namespace Namespace

/-- A relationship is narrower than another one of its name: a term of the other one is a supertype
of its own. -/
def Narrows (ns : Namespace) (r s : Relationship) : Prop :=
  s.name = r.name ∧
    ∀ wide ∈ s.term, ∃ term ∈ r.term, ns.isSubtype term.name wide.name = true

section Narrows

variable {ns : Namespace} {r s q : Relationship} {store : Option Store} {record : Record}

theorem narrows_supertype {name : String} {term wide : Symbol}
    (h : ns.isSubtype term.name wide.name = true) :
    ns.Narrows ⟨name, some term⟩ ⟨name, some wide⟩ := by
  refine ⟨rfl, fun other hother => ?_⟩
  cases hother
  exact ⟨term, rfl, h⟩

theorem narrows_none (ns : Namespace) (name : String) (term : Option Symbol) :
    ns.Narrows ⟨name, term⟩ ⟨name, none⟩ :=
  ⟨rfl, fun _ hwide => nomatch hwide⟩

theorem isRefTag_of_narrows (h : ns.Narrows r s) (htag : ns.isRefTag r record = true) :
    ns.isRefTag s record = true := by
  obtain ⟨value, hvalue, hterm⟩ := isRefTag_iff.mp htag
  refine isRefTag_iff.mpr ⟨value, h.1 ▸ hvalue, fun wide hwide => ?_⟩
  obtain ⟨term, hmem, hupper⟩ := h.2 wide hwide
  obtain ⟨symbol, hsymbol, hlower⟩ := hterm term hmem
  exact ⟨symbol, hsymbol, isSubtype_trans hlower hupper⟩

/-- A wider relationship has all ref tags of a narrower one, in the same order. -/
theorem refTags_sublist (h : ns.Narrows r s) : (ns.refTags r).Sublist (ns.refTags s) := by
  refine List.Sublist.map Prod.fst (List.monotone_filter_right ns.defs.entries ?_)
  exact fun entry htag => isRefTag_of_narrows h htag

theorem PointsAt.of_narrows (h : ns.Narrows r s) {id : String} (hpoints : ns.PointsAt r record id) :
    ns.PointsAt s record id := by
  obtain ⟨tag, htag, hrefs⟩ := hpoints
  exact ⟨tag, (refTags_sublist h).subset htag, hrefs⟩

theorem Continues.of_narrows (h : ns.Narrows r s) {a b : String}
    (hcontinues : ns.Continues store r a b) : ns.Continues store s a b := by
  obtain ⟨htransitive, other, hother, hpoints⟩ := hcontinues
  exact ⟨h.1 ▸ htransitive, other, hother, hpoints.of_narrows h⟩

/-- A record that stands in a narrower relationship stands in a wider one. -/
theorem isRelated_of_narrows (h : ns.Narrows r s) {target : Option Ref}
    (hrelated : ns.isRelated store record r target = true) :
    ns.isRelated store record s target = true :=
  isRelated_of_pointsAt (fun _ => PointsAt.of_narrows h) (fun _ _ => Continues.of_narrows h)
    hrelated

end Narrows

/-- With a supertype of its term a relationship has all ref tags that it has with the term, and
without a term it has all of these.  Every record that stands in it with the term, to any record or
to a given one, stands in it with the supertype, and if it does so with the supertype, then without
a term. -/
theorem isRelated_widen (ns : Namespace) (name : String) {term wide : Symbol}
    (h : ns.isSubtype term.name wide.name = true) :
    (ns.refTags ⟨name, some term⟩).Sublist (ns.refTags ⟨name, some wide⟩) ∧
    (ns.refTags ⟨name, some wide⟩).Sublist (ns.refTags ⟨name, none⟩) ∧
    ∀ (store : Option Store) (record : Record) (target : Option Ref),
      (ns.isRelated store record ⟨name, some term⟩ target = true →
        ns.isRelated store record ⟨name, some wide⟩ target = true) ∧
      (ns.isRelated store record ⟨name, some wide⟩ target = true →
        ns.isRelated store record ⟨name, none⟩ target = true) := by
  have hsupertype : ns.Narrows ⟨name, some term⟩ ⟨name, some wide⟩ := narrows_supertype h
  have hnone : ns.Narrows ⟨name, some wide⟩ ⟨name, none⟩ := narrows_none ns name (some wide)
  refine ⟨refTags_sublist hsupertype, refTags_sublist hnone, fun store record target => ⟨?_, ?_⟩⟩
  · exact isRelated_of_narrows hsupertype
  · exact isRelated_of_narrows hnone

/-- The def of a ref tag for what a device is fed by. -/
def inputTag (name term : String) : Record :=
  ⟨[("def", .symbol ⟨name⟩), ("inputs", .symbol ⟨term⟩)]⟩

/-- Two kinds of electricity, one of which is taken for electricity as such, with a ref tag for
each. -/
def currents : Namespace where
  defs := ⟨[("ac", typeDef "ac" ["elec"]), ("acRef", inputTag "acRef" "ac"),
    ("dc", typeDef "dc" ["elec"]), ("dcRef", inputTag "dcRef" "dc"),
    ("elec", typeDef "elec" ["ac"]),
    ("inputs", ⟨[("def", .symbol ⟨"inputs"⟩), ("transitive", .marker)]⟩)]⟩

/-- A board that is fed by the mains and by a battery. -/
def fedBoard : Store where
  records := ⟨[("board", ⟨[("acRef", .ref ⟨"main", none⟩), ("dcRef", .ref ⟨"battery", none⟩)]⟩)]⟩

/-- A lamp that is fed by the board. -/
def lamp : Record := ⟨[("dcRef", .ref ⟨"board", none⟩)]⟩

theorem isRelated_widen_currents :
    currents.isSubtype "dc" "elec" = true ∧
    (currents.refTags ⟨"inputs", some ⟨"dc"⟩⟩).Sublist
      (currents.refTags ⟨"inputs", some ⟨"elec"⟩⟩) ∧
    currents.isRelated (some fedBoard) lamp ⟨"inputs", some ⟨"dc"⟩⟩ (some ⟨"battery", none⟩) =
      true ∧
    currents.isRelated (some fedBoard) lamp ⟨"inputs", some ⟨"elec"⟩⟩ (some ⟨"battery", none⟩) =
      true ∧
    currents.isRelated (some fedBoard) lamp ⟨"inputs", none⟩ (some ⟨"battery", none⟩) = true := by
  have hsubtype : currents.isSubtype "dc" "elec" = true :=
    isSubtype_iff.mpr (.single ⟨_, rfl, _, rfl, ⟨"elec"⟩, List.mem_cons_self, rfl⟩)
  have htag : "dcRef" ∈ currents.refTags ⟨"inputs", some ⟨"dc"⟩⟩ := by
    refine List.mem_map.mpr ⟨("dcRef", inputTag "dcRef" "dc"), List.mem_filter.mpr ⟨?_, ?_⟩, rfl⟩
    · exact List.mem_of_getElem? (i := 3) rfl
    · refine isRefTag_iff.mpr ⟨_, rfl, fun term hterm => ⟨⟨"dc"⟩, List.mem_cons_self, ?_⟩⟩
      cases hterm
      exact isSubtype_refl currents "dc"
  have hboard : currents.PointsAt ⟨"inputs", some ⟨"dc"⟩⟩ lamp "board" :=
    ⟨"dcRef", htag, _, rfl, ⟨"board", none⟩, List.mem_cons_self, rfl⟩
  have hbattery : currents.LeadsOn (some fedBoard) ⟨"inputs", some ⟨"dc"⟩⟩ "board" "battery" :=
    ⟨_, rfl, "dcRef", htag, _, rfl, ⟨"battery", none⟩, List.mem_cons_self, rfl⟩
  have hrelated : currents.isRelated (some fedBoard) lamp ⟨"inputs", some ⟨"dc"⟩⟩
      (some ⟨"battery", none⟩) = true :=
    isRelated_some_iff_continues.mpr ⟨"board", hboard, .single ⟨rfl, hbattery⟩⟩
  obtain ⟨htags, -, hwiden⟩ := isRelated_widen currents "inputs" hsubtype
  obtain ⟨hwide, hnone⟩ := hwiden (some fedBoard) lamp (some ⟨"battery", none⟩)
  exact ⟨hsubtype, htags, hrelated, hwide hrelated, hnone (hwide hrelated)⟩

end Namespace

end TagFilter
