import RecipeGraph.Proofs.Staleness

/-!
# What is recorded for nodes

A session holds one fingerprint for a node at most. Where fingerprints match before an
edit, looking for stale results drops the nodes whose fingerprint the edit has changed,
and no others.
-/

namespace RecipeGraph.Session

/-- No node is recorded twice. -/
def Keyed (session : Session) : Prop :=
  (session.fingerprints.map (·.1)).Nodup

namespace Keyed

variable {session : Session}

theorem forget (keyed : session.Keyed) (id : String) : (session.forget id).Keyed :=
  keyed.sublist (List.filter_sublist.map _)

theorem remember (keyed : session.Keyed) (id : String) (fingerprint : Fingerprint) :
    (session.remember id fingerprint).Keyed := by
  unfold Keyed Session.remember
  rw [List.map_append, List.nodup_append]
  refine ⟨keyed.forget id, by simp, ?_⟩
  rintro key member _ last rfl
  obtain ⟨entry, kept, rfl⟩ := List.mem_map.mp member
  have apart := (List.mem_filter.mp kept).2
  simp_all

theorem lasting : Lasting Keyed where
  stored _ _ keyed := keyed
  forgotten _ id keyed := keyed.forget id

theorem track (keyed : session.Keyed) {id : String} {after : Session}
    (done : session.track id = .ok after) : after.Keyed := by
  unfold Session.track at done
  split at done
  · obtain ⟨fingerprint, _, made⟩ := Outcome.bind_eq_ok.mp done
    cases made
    exact keyed.remember id fingerprint
  · cases done
    exact keyed.forget id

theorem trackAll (keyed : session.Keyed) (ids : List String) : (session.trackAll ids).2.Keyed := by
  induction ids generalizing session with
  | nil => exact keyed
  | cons id rest ih =>
    unfold Session.trackAll
    split
    · next done => exact ih (keyed.track done)
    · exact keyed

theorem compile (keyed : session.Keyed) (compilers : Compilers) (id : String) :
    (session.compile compilers id).2.Keyed := by
  unfold Session.compile
  split
  · exact keyed
  · next subset _ =>
    have tracked := @trackAll { session with
      store := (session.store.compile compilers subset).2, compiling := false } keyed subset
    simp only
    split
    · next same =>
      rw [same] at tracked
      exact tracked
    · next same =>
      rw [same] at tracked
      exact tracked

theorem apply (keyed : session.Keyed) (compilers : Compilers) (operation : Operation) :
    (session.apply compilers operation).Keyed :=
  lasting.apply compilers keyed (fun _ => List.nodup_nil) (keyed.compile compilers) operation

end Keyed

theorem Reached.keyed {registry : Registry} {allowed : Operation → Prop} {session : Session}
    (reached : Reached registry allowed session) : session.Keyed := by
  induction reached with
  | empty => exact List.nodup_nil
  | starter =>
    have empty : Session.empty.Keyed := List.nodup_nil
    exact empty.apply registry (.load starterGraph)
  | step _ _ ih => exact ih.apply registry _

section Stale

variable {session before middle : Session} {id : String}

/-- A node is dropped only for what is recorded for it. -/
theorem Keyed.recorded_of_stale (keyed : session.Keyed) (listed : id ∈ session.stale) :
    ∃ fingerprint, session.fingerprint? id = some fingerprint ∧
      fingerprint.isStale session.store.toGraph id = true := by
  obtain ⟨entry, member, rfl⟩ := List.mem_map.mp listed
  obtain ⟨held, stale⟩ := List.mem_filter.mp member
  exact ⟨entry.2, lookup_of_mem keyed held, stale⟩

theorem isCompiled_invalidateStale (sound : session.store.WellFormed) :
    session.invalidateStale.isCompiled id = true ↔
      session.isCompiled id = true ∧ id ∉ session.stale := by
  have each := ((invalidateAll_spec sound session.stale).2 id).1
  change session.invalidateStale.store.node? id = _ at each
  unfold isCompiled
  rw [each]
  cases session.store.node? id with
  | none => simp
  | some node => by_cases listed : id ∈ session.stale <;> simp [listed, Node.uncompiled]

/-- Behind an edit, what a compiled node is recorded with is stale unless the graphs
match. -/
theorem Tracked.not_stale_iff (tracked : before.Tracked) (keyed : middle.Keyed)
    (entry : middle.fingerprint? id = before.fingerprint? id)
    (compiled : before.isCompiled id = true) :
    id ∉ middle.stale ↔ before.store.Matches middle.store.toGraph id := by
  obtain ⟨fingerprint, recorded, matched⟩ := tracked id compiled
  have now := entry.trans recorded
  constructor
  · intro kept
    have current : fingerprint.isStale middle.store.toGraph id = false :=
      Bool.eq_false_iff.mpr fun stale => kept (mem_stale now stale)
    exact Fingerprint.matches_of_isStale matched current
  · intro same listed
    obtain ⟨earlier, captured, equal⟩ := Fingerprint.isStale_eq_false.mp matched
    obtain ⟨later, captured', equal'⟩ := same.capture captured
    obtain ⟨fingerprint', recorded', stale⟩ := keyed.recorded_of_stale listed
    cases now.symm.trans recorded'
    have current := Fingerprint.isStale_eq_false.mpr
      ⟨later, captured', BEq.trans (BEq.symm equal') equal⟩
    rw [current] at stale
    cases stale

end Stale

end RecipeGraph.Session
