import Mathlib.Data.List.Basic
import Mathlib.Logic.Relation
import VhdlLowering.Name.Handles
import VhdlLowering.Proofs.NameStores

/-!
# Handles of shared tables

Each handle stems by cloning from a handle that was made with a table of its own. Handles of one
origin see the same table, and what is asked through them is replied as by a table that nobody else
works with.
-/

namespace VhdlLowering
namespace HandlePool

open NameStore (Query Reply reply interned)

/-- The handle that an event cloned a handle from; the handle itself if the event did not make it by
cloning. -/
def Event.source : Event → Nat → Nat
  | (.clone h, .handle i), j => if j = i then h else j
  | _, j => j

/-- The handle that a handle stems from by cloning. -/
def origin (events : List Event) (h : Nat) : Nat := events.foldr Event.source h

/-- The second handle was cloned from the first one. -/
def Cloned (events : List Event) (h i : Nat) : Prop := (.clone h, .handle i) ∈ events

/-- What an event asked through a handle of the given root, and what was replied. -/
def Event.query? (root : Nat → Nat) (o : Nat) : Event → Option (Query × Reply)
  | (.ask i q, .reply r) => if root i = o then some (q, r) else none
  | _ => none

/-- What was asked through the handles with the origin of a handle, and what was replied. -/
def asked (events : List Event) (h : Nat) : List (Query × Reply) :=
  events.filterMap (Event.query? (origin events) (origin events h))

theorem Has.getElem? {τ : Type} {p : HandlePool τ} {h : Nat} (hh : p.Has h) :
    ∃ g, p.handles[h]? = some g :=
  ⟨_, List.getElem?_eq_getElem hh⟩

section Origins

variable {events : List Event} {e : Event} {h i : Nat}

theorem origin_concat : origin (events ++ [e]) h = origin events (e.source h) := by
  simp [origin, List.foldr_append]

theorem source_of_ne (he : e.2 ≠ .handle h) : e.source h = h := by
  obtain ⟨a, r⟩ := e
  cases a with
  | clone j =>
    cases r with
    | handle i => exact if_neg fun hi => he (congrArg Answer.handle hi.symm)
    | _ => rfl
  | _ => cases r <;> rfl

theorem origin_concat_of_ne (he : e.2 ≠ .handle h) :
    origin (events ++ [e]) h = origin events h := by
  rw [origin_concat, source_of_ne he]

/-- A handle is connected to its origin by cloning. -/
theorem related_origin : Relation.EqvGen (Cloned events) (origin events h) h := by
  induction events with
  | nil => exact .refl h
  | cons e events ih =>
    have hrest : Relation.EqvGen (Cloned (e :: events)) (origin events h) h :=
      ih.mono fun _ _ hc => List.mem_cons_of_mem e hc
    refine Relation.EqvGen.trans _ _ _ ?_ hrest
    change Relation.EqvGen _ (e.source (origin events h)) (origin events h)
    by_cases hne : e.2 = .handle (origin events h)
    · obtain ⟨a, r⟩ := e
      cases hne
      cases a with
      | clone j =>
        rw [show Event.source (.clone j, .handle (origin events h)) (origin events h) = j from
          if_pos rfl]
        exact .rel _ _ List.mem_cons_self
      | ask => exact .refl _
      | fresh => exact .refl _
    · rw [source_of_ne hne]
      exact .refl _

theorem origin_of_not_mem (hh : ∀ a, (a, .handle h) ∉ events) : origin events h = h := by
  induction events with
  | nil => rfl
  | cons e events ih =>
    have hrest : origin events h = h := ih fun a ha => hh a (List.mem_cons_of_mem e ha)
    change e.source (origin events h) = h
    rw [hrest]
    exact source_of_ne fun he => hh e.1 (he ▸ List.mem_cons_self)

theorem query?_congr {root root' : Nat → Nat} {o o' : Nat}
    (he : ∀ j q r, e = (.ask j q, .reply r) → (root j = o ↔ root' j = o')) :
    e.query? root o = e.query? root' o' := by
  obtain ⟨a, r⟩ := e
  cases a with
  | ask j q =>
    cases r with
    | reply r => exact if_congr (he j q r rfl) rfl rfl
    | _ => rfl
  | _ => rfl

theorem query?_eq_none {root : Nat → Nat} {o : Nat}
    (he : ∀ j q r, e = (.ask j q, .reply r) → root j ≠ o) : e.query? root o = none := by
  obtain ⟨a, r⟩ := e
  cases a with
  | ask j q =>
    cases r with
    | reply r => exact if_neg (he j q r rfl)
    | _ => rfl
  | _ => rfl

theorem asked_concat (he : ∀ j q r, (.ask j q, .reply r) ∈ events ++ [e] → e.2 ≠ .handle j) :
    asked (events ++ [e]) h =
      (events ++ [e]).filterMap (Event.query? (origin events) (origin events (e.source h))) := by
  unfold asked
  rw [origin_concat]
  refine List.filterMap_congr fun ev hev => query?_congr fun j q r hj => ?_
  rw [origin_concat_of_ne (he j q r (hj ▸ hev))]

end Origins

/-- What the events of a run tell about its handles. -/
structure Tracks {τ : Type} (events : List Event) (p : HandlePool τ) : Prop where
  has_iff : ∀ h, p.Has h ↔ ∃ a, (a, .handle h) ∈ events
  asked_has : ∀ h q r, (.ask h q, .reply r) ∈ events → p.Has h
  cloned : ∀ h i, Cloned events h i → p.handles[i]? = p.handles[h]?
  made : ∀ h, p.Has h → (.fresh, .handle (origin events h)) ∈ events
  same_iff : ∀ h i, p.Has h → p.Has i →
    (origin events i = origin events h ↔ p.handles[i]? = p.handles[h]?)

namespace Tracks

variable {τ : Type} {p next : HandlePool τ} {events : List Event} {e : Event} {h g : Nat}

theorem start : Tracks [] (empty : HandlePool τ) where
  has_iff h := by simp [Has, empty]
  asked_has h q r hmem := by cases hmem
  cloned h i hmem := by cases hmem
  made h hh := by cases hh
  same_iff h i hh := by cases hh

theorem has_origin (ht : Tracks events p) (hh : p.Has h) : p.Has (origin events h) :=
  (ht.has_iff _).mpr ⟨_, ht.made h hh⟩

theorem origin_of_not_has (ht : Tracks events p) (hh : ¬p.Has h) : origin events h = h :=
  origin_of_not_mem fun a ha => hh ((ht.has_iff h).mpr ⟨a, ha⟩)

/-- An event that makes no handle. -/
theorem keep (ht : Tracks events p) (he : ∀ h, e.2 ≠ .handle h)
    (hasked : ∀ h q r, e = (.ask h q, .reply r) → p.Has h) (hnext : next.handles = p.handles) :
    Tracks (events ++ [e]) next where
  has_iff h := by
    have hnot : ∀ a, (a, .handle h) ≠ e := fun a ha => he h (ha ▸ rfl)
    simp only [Has, hnext, List.mem_append, List.mem_singleton, hnot, or_false]
    exact ht.has_iff h
  asked_has h q r hmem := by
    rw [Has, hnext]
    rcases List.mem_append.mp hmem with hmem | hmem
    · exact ht.asked_has h q r hmem
    · exact hasked h q r (List.mem_singleton.mp hmem).symm
  cloned h i hmem := by
    rw [hnext]
    rcases List.mem_append.mp hmem with hmem | hmem
    · exact ht.cloned h i hmem
    · exact absurd (congrArg Prod.snd (List.mem_singleton.mp hmem)).symm (he i)
  made h hh := by
    rw [Has, hnext] at hh
    rw [origin_concat_of_ne (he h)]
    exact List.mem_append_left _ (ht.made h hh)
  same_iff h i hh hi := by
    rw [Has, hnext] at hh hi
    rw [origin_concat_of_ne (he h), origin_concat_of_ne (he i), hnext]
    exact ht.same_iff h i hh hi

theorem absent (ht : Tracks events p) (a : Step) : Tracks (events ++ [(a, .absent)]) p :=
  ht.keep (fun h heq => by cases heq) (fun h q r heq => by cases heq) rfl

/-- A new handle, for a table that a handle has or for a further one. -/
theorem grow (ht : Tracks events p) (he : e.2 = .handle p.handles.length)
    (hnext : next.handles = p.handles ++ [g])
    (hcloned : ∀ h i, (.clone h, .handle i) = e → next.handles[i]? = next.handles[h]?)
    (hmade : (.fresh, .handle (origin (events ++ [e]) p.handles.length)) ∈ events ++ [e])
    (hsame : ∀ h, p.Has h →
      (origin (events ++ [e]) p.handles.length = origin events h ↔ some g = p.handles[h]?)) :
    Tracks (events ++ [e]) next := by
  have hhas : ∀ h, next.Has h ↔ p.Has h ∨ h = p.handles.length := fun h => by
    rw [Has, Has, hnext, List.length_append, List.length_singleton]
    omega
  have hold : ∀ h, p.Has h → next.handles[h]? = p.handles[h]? := fun h hh => by
    rw [hnext, List.getElem?_append_left hh]
  have hlast : next.handles[p.handles.length]? = some g := by
    rw [hnext, List.getElem?_concat_length]
  have horigin : ∀ h, p.Has h → origin (events ++ [e]) h = origin events h := fun h hh => by
    refine origin_concat_of_ne fun heq => ?_
    rw [he] at heq
    exact Nat.ne_of_lt hh (Answer.handle.inj heq).symm
  refine ⟨fun h => ?_, fun h q r hmem => ?_, fun h i hmem => ?_, fun h hh => ?_,
    fun h i hh hi => ?_⟩
  · rw [hhas, ht.has_iff]
    constructor
    · rintro (⟨a, ha⟩ | rfl)
      · exact ⟨a, List.mem_append_left _ ha⟩
      · exact ⟨e.1, he ▸ List.mem_append_right _ List.mem_cons_self⟩
    · rintro ⟨a, ha⟩
      rcases List.mem_append.mp ha with ha | ha
      · exact .inl ⟨a, ha⟩
      · rw [← List.mem_singleton.mp ha] at he
        exact .inr (Answer.handle.inj he)
  · rcases List.mem_append.mp hmem with hmem | hmem
    · exact (hhas h).mpr (.inl (ht.asked_has h q r hmem))
    · rw [← List.mem_singleton.mp hmem] at he
      cases he
  · rcases List.mem_append.mp hmem with hmem | hmem
    · have hi : p.Has i := (ht.has_iff i).mpr ⟨_, hmem⟩
      have hsource := ht.cloned h i hmem
      have hh : p.Has h := by
        rw [List.getElem?_eq_getElem hi] at hsource
        exact (List.getElem?_eq_some_iff.mp hsource.symm).1
      rw [hold i hi, hold h hh, hsource]
    · exact hcloned h i (List.mem_singleton.mp hmem)
  · rcases (hhas h).mp hh with hh | rfl
    · rw [horigin h hh]
      exact List.mem_append_left _ (ht.made h hh)
    · exact hmade
  · rcases (hhas h).mp hh with hh | rfl <;> rcases (hhas i).mp hi with hi | rfl
    · rw [horigin h hh, horigin i hi, hold h hh, hold i hi]
      exact ht.same_iff h i hh hi
    · rw [horigin h hh, hold h hh, hlast]
      exact hsame h hh
    · rw [horigin i hi, hold i hi, hlast, eq_comm, hsame i hi, eq_comm]
    · exact iff_of_true rfl rfl

/-- A handle is cloned. -/
theorem clone (ht : Tracks events p) (hg : p.handles[h]? = some g)
    (hnext : next.handles = p.handles ++ [g]) :
    Tracks (events ++ [(.clone h, .handle p.handles.length)]) next := by
  have hh : p.Has h := (List.getElem?_eq_some_iff.mp hg).1
  have horigin : origin (events ++ [(.clone h, .handle p.handles.length)]) p.handles.length =
      origin events h := by
    rw [origin_concat]
    exact congrArg (origin events) (if_pos rfl)
  refine ht.grow rfl hnext (fun j i hj => ?_) ?_ fun i hi => ?_
  · cases hj
    rw [hnext, List.getElem?_concat_length, List.getElem?_append_left hh, hg]
  · rw [horigin]
    exact List.mem_append_left _ (ht.made h hh)
  · rw [horigin, ← hg]
    exact ht.same_iff i h hi hh

/-- A handle is made for a table that no handle has. -/
theorem fresh (ht : Tracks events p) (hg : g ∉ p.handles)
    (hnext : next.handles = p.handles ++ [g]) :
    Tracks (events ++ [(.fresh, .handle p.handles.length)]) next := by
  have horigin : origin (events ++ [(.fresh, .handle p.handles.length)]) p.handles.length =
      p.handles.length := by
    rw [origin_concat]
    exact ht.origin_of_not_has (Nat.lt_irrefl _)
  refine ht.grow rfl hnext (fun j i hj => by cases hj) ?_ fun i hi => ?_
  · rw [horigin]
    exact List.mem_append_right _ List.mem_cons_self
  · rw [horigin]
    refine iff_of_false (Nat.ne_of_gt (ht.has_origin hi)) fun heq => ?_
    exact hg (List.mem_of_getElem? heq.symm)

/-- Nothing is asked when a handle is made. -/
theorem asked_concat (ht : Tracks events p) {a : Step} :
    asked (events ++ [(a, .handle p.handles.length)]) h =
      events.filterMap (Event.query? (origin events)
        (origin events (Event.source (a, .handle p.handles.length) h))) := by
  rw [HandlePool.asked_concat, List.filterMap_append]
  · cases a <;> exact List.append_nil _
  · intro j q r hj heq
    rcases List.mem_append.mp hj with hj | hj
    · exact Nat.ne_of_lt (ht.asked_has j q r hj) (Answer.handle.inj heq).symm
    · cases List.mem_singleton.mp hj

end Tracks

section Steps

variable {τ : Type} [NameStore τ] {p : HandlePool τ} {h i g : Nat}

theorem getElem?_tables (hg : p.handles[h]? = some g) : p.tables[g]? = some (p.table h) := by
  have hlt : g < p.tables.length := p.linked g (List.mem_of_getElem? hg)
  rw [table, hg, Option.bind_some, List.getElem?_eq_getElem hlt, Option.getD_some]

theorem table_of {t : τ} (hg : p.handles[h]? = some g) (ht : p.tables[g]? = some t) :
    p.table h = t :=
  Option.some.inj ((getElem?_tables hg).symm.trans ht)

theorem handles_ask (q : Query) : (p.ask h q).2.handles = p.handles := by
  cases q with
  | intern s =>
    simp only [ask, intern]
    split <;> rfl
  | resolve x => rfl
  | tryResolve x => rfl

theorem reply_ask (q : Query) : (p.ask h q).1 = (reply (p.table h) q).1 := by
  cases q with
  | intern s =>
    simp only [ask, intern]
    split <;> rfl
  | resolve x => rfl
  | tryResolve x => rfl

/-- What is asked through a handle is seen by the handles of the same table only. -/
theorem table_ask (q : Query) (hh : p.Has h) (hi : p.Has i) :
    (p.ask h q).2.table i =
      if p.handles[i]? = p.handles[h]? then (reply (p.table h) q).2 else p.table i := by
  obtain ⟨g, hg⟩ := hh.getElem?
  obtain ⟨k, hk⟩ := hi.getElem?
  by_cases hgk : k = g
  · subst hgk
    have htable : p.table i = p.table h := table_of hk (getElem?_tables hg)
    rw [hk, hg, if_pos rfl]
    cases q with
    | intern s =>
      have hlt : k < p.tables.length := p.linked k (List.mem_of_getElem? hg)
      simp only [ask, intern, hg]
      refine table_of hk ?_
      exact List.getElem?_set_self hlt
    | resolve x => exact htable
    | tryResolve x => exact htable
  · rw [hk, hg, if_neg fun heq => hgk (Option.some.inj heq)]
    cases q with
    | intern s =>
      simp only [ask, intern, hg]
      refine table_of hk ?_
      exact (List.getElem?_set_ne (Ne.symm hgk)).trans (getElem?_tables hk)
    | resolve x => rfl
    | tryResolve x => rfl

theorem step_ask (q : Query) (hh : p.Has h) :
    p.step (.ask h q) = (.reply (reply (p.table h) q).1, (p.ask h q).2) := by
  rw [← reply_ask]
  exact if_pos hh

theorem step_clone (hg : p.handles[h]? = some g) :
    (p.step (.clone h)).1 = .handle p.handles.length ∧
      (p.step (.clone h)).2.handles = p.handles ++ [g] ∧
      (p.step (.clone h)).2.tables = p.tables := by
  have hh : p.Has h := (List.getElem?_eq_some_iff.mp hg).1
  simp only [step, if_pos hh, clone]
  split
  · rename_i k hk
    rw [hg] at hk
    cases hk
    exact ⟨rfl, rfl, rfl⟩
  · rename_i hk
    rw [hg] at hk
    cases hk

/-- Handles with the same table see it alike. -/
theorem table_congr (h₀ : p.handles[i]? = p.handles[h]?) : p.table i = p.table h := by
  rw [table, table, h₀]

/-- What was asked through the handles of one origin was replied as by a table alone. -/
def Separates (events : List Event) (p : HandlePool τ) : Prop :=
  ∀ h, p.Has h →
    transcript reply NameStore.empty ((asked events h).map Prod.fst) = (asked events h, p.table h)

variable {events : List Event} {e : Event} {next : HandlePool τ}

/-- Asking through a handle concerns the handles of its origin. -/
theorem Separates.ask (hs : Separates events p) (ht : Tracks events p) (hh : p.Has h) (q : Query) :
    Separates (events ++ [(.ask h q, .reply (reply (p.table h) q).1)]) (p.ask h q).2 := by
  intro i hi
  rw [Has, handles_ask] at hi
  have hasked : asked (events ++ [(.ask h q, .reply (reply (p.table h) q).1)]) i =
      asked events i ++ [((.ask h q, .reply (reply (p.table h) q).1) : Event)].filterMap
        (Event.query? (origin events) (origin events i)) := by
    rw [asked_concat, List.filterMap_append]
    · rfl
    · intro j r s hj heq
      cases heq
  rw [hasked, table_ask q hh hi]
  by_cases hsame : p.handles[i]? = p.handles[h]?
  · have horigin : origin events h = origin events i := ((ht.same_iff h i hh hi).mpr hsame).symm
    have hlast : [((.ask h q, .reply (reply (p.table h) q).1) : Event)].filterMap
        (Event.query? (origin events) (origin events i)) = [(q, (reply (p.table h) q).1)] := by
      simp [Event.query?, horigin]
    rw [hlast, List.map_append, List.map_singleton, transcript_concat, hs i hi, if_pos hsame,
      table_congr hsame]
  · have horigin : ¬origin events h = origin events i :=
      fun heq => hsame ((ht.same_iff h i hh hi).mp heq.symm)
    have hlast : [((.ask h q, .reply (reply (p.table h) q).1) : Event)].filterMap
        (Event.query? (origin events) (origin events i)) = [] := by
      simp [Event.query?, horigin]
    rw [hlast, List.append_nil, hs i hi, if_neg hsame]

theorem Separates.clone (hs : Separates events p) (ht : Tracks events p)
    (hg : p.handles[h]? = some g) (hnext : next.handles = p.handles ++ [g])
    (htables : next.tables = p.tables) :
    Separates (events ++ [(.clone h, .handle p.handles.length)]) next := by
  intro i hi
  have hh : p.Has h := (List.getElem?_eq_some_iff.mp hg).1
  -- Whatever is asked of the new handle has been asked of the one that it is cloned from.
  have hsource : p.Has (Event.source (.clone h, .handle p.handles.length) i) ∧
      next.table i = p.table (Event.source (.clone h, .handle p.handles.length) i) := by
    rw [table, table, hnext, htables]
    by_cases hlast : i = p.handles.length
    · rw [show Event.source (.clone h, .handle p.handles.length) i = h from if_pos hlast, hlast,
        List.getElem?_concat_length, hg]
      exact ⟨hh, rfl⟩
    · have hold : p.Has i := by
        rw [Has, hnext, List.length_append, List.length_singleton] at hi
        exact Nat.lt_of_le_of_ne (Nat.le_of_lt_succ hi) hlast
      rw [show Event.source (.clone h, .handle p.handles.length) i = i from if_neg hlast,
        List.getElem?_append_left hold]
      exact ⟨hold, rfl⟩
  rw [ht.asked_concat, hsource.2]
  exact hs _ hsource.1

theorem Separates.fresh (hs : Separates events p) (ht : Tracks events p) :
    Separates (events ++ [(.fresh, .handle p.handles.length)]) p.fresh.2 := by
  intro i hi
  rw [ht.asked_concat]
  change transcript reply _ ((events.filterMap (Event.query? _ (origin events i))).map _) =
    (events.filterMap (Event.query? _ (origin events i)), _)
  by_cases hold : p.Has i
  · obtain ⟨g, hg⟩ := hold.getElem?
    have htable : p.fresh.2.table i = p.table i := by
      refine table_of ((List.getElem?_append_left hold).trans hg) ?_
      exact (List.getElem?_append_left (p.linked g (List.mem_of_getElem? hg))).trans
        (getElem?_tables hg)
    rw [htable]
    exact hs i hold
  · have hlast : i = p.handles.length := by
      have hlt : i < p.handles.length + 1 := by simpa [Has, HandlePool.fresh] using hi
      exact Nat.le_antisymm (Nat.le_of_lt_succ hlt) (Nat.le_of_not_lt hold)
    have hnone : events.filterMap (Event.query? (origin events) (origin events i)) = [] := by
      refine List.filterMap_eq_nil_iff.mpr fun ev hev => query?_eq_none fun j q r hj heq => ?_
      have hasked : p.Has (origin events j) := ht.has_origin (ht.asked_has j q r (hj ▸ hev))
      rw [heq, ht.origin_of_not_has hold] at hasked
      exact hold hasked
    have htable : p.fresh.2.table i = NameStore.empty := by
      subst hlast
      exact table_of List.getElem?_concat_length List.getElem?_concat_length
    rw [hnone, htable]
    rfl

theorem Separates.absent (hs : Separates events p) (a : Step) :
    Separates (events ++ [(a, .absent)]) p := by
  intro h hh
  have hasked : asked (events ++ [(a, .absent)]) h = asked events h := by
    rw [asked_concat fun j q r hj heq => (by cases heq), List.filterMap_append,
      source_of_ne (by simp)]
    cases a <;> exact List.append_nil _
  rw [hasked]
  exact hs h hh

theorem tracks_step (ht : Tracks events p) (hs : Separates events p) (a : Step) :
    Tracks (events ++ [(a, (p.step a).1)]) (p.step a).2 ∧
      Separates (events ++ [(a, (p.step a).1)]) (p.step a).2 := by
  cases a with
  | ask h q =>
    by_cases hh : p.Has h
    · rw [step_ask q hh]
      refine ⟨ht.keep (fun i heq => by cases heq) (fun i r s heq => ?_) (handles_ask q),
        hs.ask ht hh q⟩
      cases heq
      exact hh
    · rw [show p.step (.ask h q) = (.absent, p) from if_neg hh]
      exact ⟨ht.absent _, hs.absent _⟩
  | clone h =>
    by_cases hh : p.Has h
    · obtain ⟨g, hg⟩ := hh.getElem?
      obtain ⟨hanswer, hhandles, htables⟩ := step_clone hg
      rw [hanswer]
      exact ⟨ht.clone hg hhandles, hs.clone ht hg hhandles htables⟩
    · rw [show p.step (.clone h) = (.absent, p) from if_neg hh]
      exact ⟨ht.absent _, hs.absent _⟩
  | fresh =>
    have hnew : p.tables.length ∉ p.handles := fun hmem => Nat.lt_irrefl _ (p.linked _ hmem)
    exact ⟨ht.fresh hnew rfl, hs.fresh ht⟩

theorem tracks_run (steps : List Step) :
    Tracks (run τ steps).1 (run τ steps).2 ∧ Separates (run τ steps).1 (run τ steps).2 := by
  induction steps using List.reverseRecOn with
  | nil => exact ⟨Tracks.start, fun h hh => by cases hh⟩
  | append_singleton steps a ih =>
    rw [run, transcript_concat]
    exact tracks_step ih.1 ih.2 a

end Steps

open NameStore (Knows size resolve? knows_transcript)

theorem Tracks.related_iff {τ : Type} {p : HandlePool τ} {events : List Event} {h i : Nat}
    (ht : Tracks events p) (hh : p.Has h) (hi : p.Has i) :
    origin events i = origin events h ↔ Relation.EqvGen (Cloned events) i h := by
  constructor
  · intro heq
    refine .trans _ _ _ (.symm _ _ related_origin) ?_
    rw [heq]
    exact related_origin
  · intro hrelated
    rw [ht.same_iff h i hh hi]
    exact congrArg (Quot.lift (fun j => p.handles[j]?) fun j k hjk => (ht.cloned j k hjk).symm)
      (Quot.eqvGen_sound hrelated)

section Access

variable {τ : Type} [NameStore τ] {events : List Event} {p : HandlePool τ} {h : Nat}

theorem Separates.knows [LawfulNameStore τ] (hs : Separates events p) (hh : p.Has h) :
    Knows (p.table h) (interned (asked events h)) := by
  have hknows : Knows (transcript reply (NameStore.empty : τ) _).2 _ :=
    knows_transcript ((asked events h).map Prod.fst)
  rwa [hs h hh] at hknows

/-- A handle of a table that is shared by the handles of its origin, and by no other handle. -/
structure SharesTable (events : List Event) (p : HandlePool τ) (h : Nat) : Prop where
  /-- The origin was made with a table of its own. -/
  made : (.fresh, .handle (origin events h)) ∈ events
  /-- The origin is the same exactly for the handles that are related by cloning. -/
  related_iff : ∀ i, p.Has i →
    (origin events i = origin events h ↔ Relation.EqvGen (Cloned events) i h)
  cloned : (p.step (.clone h)).1 = .handle p.handles.length
  answered : ∀ q, (p.step (.ask h q)).1 = .reply (reply (p.table h) q).1
  shared : ∀ i, p.Has i → origin events i = origin events h → p.table i = p.table h
  unaffected : ∀ i q, p.Has i → origin events i ≠ origin events h →
    (p.step (.ask i q)).2.table h = p.table h
  /-- What was asked through the sharing handles was replied as by a table alone. -/
  alone : transcript reply NameStore.empty ((asked events h).map Prod.fst) =
    (asked events h, p.table h)
  /-- The symbols are the numbers below the size, in the order of first interning. -/
  counted : ((interned (asked events h)).map Prod.snd).eraseDups =
    (List.range (size (p.table h))).map Symbol.mk
  symbol_eq_iff : ∀ c ∈ interned (asked events h), ∀ d ∈ interned (asked events h),
    (c.2 = d.2 ↔ c.1 = d.1)
  /-- A symbol once given stands for its name in every sharing handle. -/
  resolves : ∀ c ∈ interned (asked events h), ∀ i, p.Has i → origin events i = origin events h →
    (p.step (.ask i (.resolve c.2))).1 = .reply (.name c.1) ∧
      (p.step (.ask i (.tryResolve c.2))).1 = .reply (.lookup (some c.1))
  /-- No other symbol stands for a name. -/
  unknown_iff : ∀ x,
    ((p.step (.ask h (.tryResolve x))).1 = .reply (.lookup none) ↔ size (p.table h) ≤ x.index) ∧
      ((p.step (.ask h (.resolve x))).1 = .reply .failure ↔ size (p.table h) ≤ x.index)

theorem answer_ask (q : Query) (hh : p.Has h) :
    (p.step (.ask h q)).1 = .reply (reply (p.table h) q).1 :=
  congrArg Prod.fst (step_ask q hh)

theorem answer_tryResolve_eq_none_iff (hh : p.Has h) {x : Symbol} :
    (p.step (.ask h (.tryResolve x))).1 = .reply (.lookup none) ↔
      resolve? (p.table h) x = none := by
  rw [answer_ask _ hh]
  simp [reply]

theorem answer_resolve_eq_failure_iff (hh : p.Has h) {x : Symbol} :
    (p.step (.ask h (.resolve x))).1 = .reply .failure ↔ resolve? (p.table h) x = none := by
  rw [answer_ask _ hh]
  cases hx : resolve? (p.table h) x <;> simp [reply, hx]

theorem answer_of_resolve? (hh : p.Has h) {x : Symbol} {s : String}
    (hx : resolve? (p.table h) x = some s) :
    (p.step (.ask h (.resolve x))).1 = .reply (.name s) ∧
      (p.step (.ask h (.tryResolve x))).1 = .reply (.lookup (some s)) := by
  rw [answer_ask _ hh, answer_ask _ hh]
  simp [reply, hx]

theorem Separates.sharesTable [LawfulNameStore τ] (hs : Separates events p)
    (ht : Tracks events p) (hh : p.Has h) : SharesTable events p h := by
  obtain ⟨g, hg⟩ := hh.getElem?
  have hknows := hs.knows hh
  have hshared : ∀ i, p.Has i → origin events i = origin events h → p.table i = p.table h :=
    fun i hi heq => table_congr ((ht.same_iff h i hh hi).mp heq)
  refine
    { made := ht.made h hh
      related_iff := fun i hi => ht.related_iff hh hi
      cloned := (step_clone hg).1
      answered := fun q => answer_ask q hh
      shared := hshared
      unaffected := fun i q hi hne => ?_
      alone := hs h hh
      counted := hknows.counted
      symbol_eq_iff := fun c hc d hd => hknows.symbol_eq_iff hc hd
      resolves := fun c hc i hi heq => answer_of_resolve? hi ?_
      unknown_iff := fun x => ?_ }
  · rw [step_ask q hi, table_ask q hi hh, if_neg]
    exact fun heq => hne ((ht.same_iff h i hh hi).mpr heq.symm)
  · rw [hshared i hi heq]
    exact hknows.resolves c hc
  · rw [answer_tryResolve_eq_none_iff hh, answer_resolve_eq_failure_iff hh, hknows.none_iff]
    exact ⟨Iff.rfl, Iff.rfl⟩

end Access

/-- In every run, whatever is done through which handles, the handles that are there are those that
were made, and each of them shares its table with the handles related to it by cloning. -/
theorem run_shares_tables {τ : Type} [NameStore τ] [LawfulNameStore τ] (steps : List Step) :
    let events := (run τ steps).1
    let p := (run τ steps).2
    (∀ h, p.Has h ↔ ∃ a, (a, .handle h) ∈ events) ∧
    (p.step .fresh).1 = .handle p.handles.length ∧
    ∀ h, p.Has h → SharesTable events p h := by
  obtain ⟨ht, hs⟩ : Tracks (run τ steps).1 (run τ steps).2 ∧
    Separates (run τ steps).1 (run τ steps).2 := tracks_run steps
  exact ⟨ht.has_iff, rfl, fun h hh => hs.sharesTable ht hh⟩

/-- Two handles share a table, and a third handle has a table of its own. -/
def threeHandles : List Step :=
  [.fresh, .clone 0, .ask 0 (.intern "clk"), .ask 1 (.intern "data"), .fresh,
    .ask 2 (.intern "data"), .ask 0 (.intern "clk")]

theorem threeHandles_share :
    let events := (run NameTable threeHandles).1
    let p := (run NameTable threeHandles).2
    p.Has 0 ∧ p.Has 1 ∧ p.Has 2 ∧
      ("data", ⟨1⟩) ∈ interned (asked events 1) ∧
      (p.step (.ask 0 (.resolve ⟨1⟩))).1 = .reply (.name "data") ∧
      (p.step (.ask 2 (.tryResolve ⟨1⟩))).1 = .reply (.lookup none) := by
  intro events p
  obtain ⟨-, -, hshares⟩ : _ ∧ _ ∧ ∀ h, p.Has h → SharesTable events p h :=
    run_shares_tables threeHandles
  have h₀ : p.Has 0 := by decide +kernel
  have h₁ : p.Has 1 := by decide +kernel
  have h₂ : p.Has 2 := by decide +kernel
  have hsame : origin events 0 = origin events 1 := by decide +kernel
  have hdata : ("data", ⟨1⟩) ∈ interned (asked events 1) := by decide +kernel
  have hsize : size (p.table 2) ≤ 1 := by decide +kernel
  exact ⟨h₀, h₁, h₂, hdata, ((hshares 1 h₁).resolves _ hdata 0 h₀ hsame).1,
    ((hshares 2 h₂).unknown_iff ⟨1⟩).1.mpr hsize⟩

end HandlePool
end VhdlLowering
