import GameCatalog.Proofs.ArchiveIndependence
import GameCatalog.Proofs.ResolutionOutcomes

/-!
# Draws in turn

Every request of a session leaves the archive's answers as they are, so a reference finds
the same catalog however often it is resolved, and only the numbers from the stream differ.
A draw table is made from as many resolutions in turn as there are draws: each counts at
the first candidate that has the name of what was drawn.
-/

namespace GameCatalog

/-- The numbers that so many draws take in turn. -/
def RandomStream.units : Nat → RandomStream → List Float
  | 0, _ => []
  | count + 1, stream => stream.unit.1 :: units count stream.unit.2

theorem RandomStream.length_units (count : Nat) (stream : RandomStream) :
    (stream.units count).length = count := by
  induction count generalizing stream with
  | zero => rfl
  | succ count ih => rw [units, List.length_cons, ih]

theorem Archive.sameAnswers_forReference (archive : Archive) (r : Reference) :
    archive.SameAnswers (Search.forReference r archive).2 :=
  (ArchiveM.agrees_forReference (Archive.respected_bothAnswerAs archive) r archive archive
    ⟨fun _ => rfl, fun _ => rfl⟩).2.1

namespace Session

/-- The session's search for the reference comes to this. -/
def Finds (session : Session) (r : Reference) (search : Search) : Prop :=
  (Search.forReference r session.archive).1 = .ok search

variable {session after : Session} {text : String} {r : Reference} {search : Search}
  {catalog : Catalog} {items : List Item} {shares : List Float}

theorem Finds.exists_search (hfinds : session.Finds r search) :
    ∃ searched, Search.forReference r session.archive = (.ok search, searched) ∧
      ∀ count, (Search.forReference r (searched.warn count)).1 = .ok search := by
  refine ⟨(Search.forReference r session.archive).2, Prod.ext hfinds rfl, fun count => ?_⟩
  -- A search changes no answer and neither does a warning, so the next one comes to the same.
  have hsame : session.archive.SameAnswers
      ((Search.forReference r session.archive).2.warn count) :=
    session.archive.sameAnswers_forReference r
  rw [← hfinds]
  exact (ArchiveM.agrees_forReference Archive.respected_sameAnswers r _ _ hsame).1.symm

/-! ## What the parts of a draw come to -/

theorem check_eq_consult (text : String) (session : Session) :
    Session.check text session =
      SessionM.consult (Resolver.check session.logs text) session := rfl

theorem resolve_eq_draw (text : String) (session : Session) :
    Session.resolve text session =
      SessionM.draw (Resolver.resolve session.logs text) session := rfl

theorem Finds.check (hread : Reference.parse text = .ok r) (hfinds : session.Finds r search) :
    ∃ after, Session.check text session =
        (.ok (Resolver.foreseen r text (r.prospect search)).diagnostic, after) ∧
      after.stream = session.stream ∧ after.Finds r search := by
  obtain ⟨searched, hsearch, hagain⟩ := hfinds.exists_search
  rw [check_eq_consult, SessionM.consult, Resolver.check_of_search hread hsearch]
  exact ⟨_, rfl, rfl, hagain _⟩

theorem Finds.candidates (hread : Reference.parse text = .ok r)
    (hfinds : session.Finds r search) :
    ∃ after, Session.candidates text session = (.ok (Resolver.listedAt search), after) ∧
      after.stream = session.stream ∧ after.Finds r search := by
  obtain ⟨searched, hsearch, hagain⟩ := hfinds.exists_search
  rw [Session.candidates, SessionM.consult, Resolver.candidates_run hread hsearch]
  exact ⟨_, rfl, rfl, hagain 0⟩

theorem Finds.resolve (hread : Reference.parse text = .ok r)
    (hfinds : session.Finds r search) :
    ∃ after, Session.resolve text session =
        (.ok (r.settle text (r.finding session.stream.unit.1 (r.prospect search))), after) ∧
      after.stream = (r.prospect search).streamAfter session.stream ∧
      after.Finds r search := by
  obtain ⟨searched, hsearch, hagain⟩ := hfinds.exists_search
  rw [resolve_eq_draw, SessionM.draw, Resolver.resolve_of_search hread hsearch]
  exact ⟨_, rfl, rfl, hagain _⟩

/-! ## Resolving in turn -/

def resolutions (text : String) : Nat → SessionM (List Resolution)
  | 0 => return []
  | count + 1 => do
      let resolution ← resolve text
      let others ← resolutions text count
      return resolution :: others

/-- Each resolution of a lottery takes the next number from the stream. -/
theorem Finds.resolutions (hread : Reference.parse text = .ok r)
    (hfinds : session.Finds r search)
    (hlottery : r.prospect search = .lottery catalog items shares) (count : Nat) :
    ∃ after, Session.resolutions text count session =
      (.ok ((session.stream.units count).map fun roll =>
        r.settle text (r.drawn catalog items shares roll)), after) := by
  induction count generalizing session with
  | zero => exact ⟨session, rfl⟩
  | succ count ih =>
      obtain ⟨middle, hresolve, hstream, hagain⟩ := hfinds.resolve hread
      rw [hlottery] at hresolve hstream
      obtain ⟨after, hothers⟩ := ih hagain
      refine ⟨after, (run_bind_ok hresolve).trans ((run_bind_ok hothers).trans ?_)⟩
      rw [hstream]
      rfl

/-! ## Tallying -/

/-- The place of the first item that has the name of what was resolved. -/
def placeOf (items : List Item) (resolution : Resolution) : Option Nat :=
  resolution.value.bind fun finding =>
    items.findIdx? fun item => item.name == finding.item.name

/-- The counts with one more at each of the places. -/
def countAll (counts places : List Nat) : List Nat :=
  places.foldl (fun counts i => counts.modify i (· + 1)) counts

theorem length_countAll (counts places : List Nat) :
    (countAll counts places).length = counts.length := by
  induction places generalizing counts with
  | nil => rfl
  | cons place places ih =>
      rw [countAll, List.foldl_cons, ← countAll, ih, List.length_modify]

theorem getElem?_countAll (counts places : List Nat) (i : Nat) :
    (countAll counts places)[i]? = counts[i]?.map (· + places.count i) := by
  induction places generalizing counts with
  | nil => simp [countAll]
  | cons place places ih =>
      rw [countAll, List.foldl_cons, ← countAll, ih, List.getElem?_modify, List.count_cons]
      by_cases hplace : place = i
      · subst hplace
        simp [Function.comp_def, Nat.add_assoc, Nat.add_comm 1]
      · simp [hplace]

/-- Tallying counts what resolving in turn comes to. -/
theorem tally_eq (items : List Item) (text : String) (count : Nat) (counts : List Nat) :
    tally items text count counts = do
      let resolved ← resolutions text count
      return countAll counts (resolved.filterMap (placeOf items)) := by
  induction count generalizing counts with
  | zero => simp [tally, resolutions, countAll]
  | succ count ih =>
      simp only [tally, resolutions, ih, bind_assoc, pure_bind]
      congr 1
      funext resolution
      cases hplace : placeOf items resolution with
      | none =>
          rw [placeOf] at hplace
          simp [hplace, placeOf]
      | some place =>
          rw [placeOf] at hplace
          simp [hplace, placeOf, countAll]

/-! ## Drawing -/

/-- Drawing from a lottery gives the table of the resolutions in turn. -/
theorem Finds.draw_of_lottery (hread : Reference.parse text = .ok r)
    (hfinds : session.Finds r search)
    (hlottery : r.prospect search = .lottery catalog items shares) (count : Nat) :
    ∃ resolved after, (Session.resolutions text count session).1 = .ok resolved ∧
      resolved = ((session.stream.units count).map fun roll =>
        r.settle text (r.drawn catalog items shares roll)) ∧
      Session.draw text count session =
        (.ok (.drawn ⟨text, count, rows items
          (countAll (List.replicate items.length 0) (resolved.filterMap (placeOf items)))
          shares⟩), after) := by
  obtain ⟨hitem, leftover, rfl, hitems, _⟩ := Reference.lottery_inv hlottery
  have hchances := Reference.probabilities_of_lottery hlottery
  obtain ⟨first, hresolutions⟩ := hfinds.resolutions hread hlottery count
  obtain ⟨checked, hcheck, hcheckedStream, hchecked⟩ := hfinds.check hread
  obtain ⟨listing, hcandidates, hlistingStream, hlisting⟩ := hchecked.candidates hread
  obtain ⟨after, hagain⟩ := hlisting.resolutions hread hlottery count
  rw [hlottery] at hcheck
  -- Neither the check nor the listing takes a number, so the draws start where the session is.
  rw [hlistingStream, hcheckedStream] at hagain
  refine ⟨_, after, by rw [hresolutions], rfl, ?_⟩
  unfold Session.draw
  rw [hread]
  dsimp only
  rw [if_neg (by simp [Reference.isWildcard, hitem])]
  refine (run_bind_ok hcheck).trans ((run_bind_ok hcandidates).trans ?_)
  simp only [Resolver.listedAt, Option.getD_some, ← hitems, hchances, tally_eq, bind_assoc,
    pure_bind]
  exact run_bind_ok hagain

theorem Finds.draw_of_fault {fault : Fault} (hread : Reference.parse text = .ok r)
    (hitem : r.item = .wildcard) (hfinds : session.Finds r search)
    (hfault : Rarity.probabilities Float
      (((Resolver.listedAt search).getD []).map Item.weight) = .error fault) (count : Nat) :
    ∃ outcome after, Session.draw text count session = (.ok outcome, after) ∧
      ∀ table, outcome = .drawn table → table = ⟨text, 0, []⟩ := by
  obtain ⟨checked, hcheck, _, hchecked⟩ := hfinds.check hread
  obtain ⟨listing, hcandidates, _, _⟩ := hchecked.candidates hread
  unfold Session.draw
  rw [hread]
  dsimp only
  rw [if_neg (by simp [Reference.isWildcard, hitem]), run_bind_ok hcheck]
  cases (Resolver.foreseen r text (r.prospect search)).diagnostic with
  | some diagnostic => exact ⟨.unresolved diagnostic, checked, rfl, by simp⟩
  | none =>
      refine ⟨.drawn ⟨text, 0, []⟩, listing, (run_bind_ok hcandidates).trans ?_, ?_⟩
      · rw [hfault]
        rfl
      · intro table htable
        exact (DrawOutcome.drawn.inj htable).symm

theorem exists_finds_of_check {diagnostic : Option Diagnostic}
    (hread : Reference.parse text = .ok r)
    (hcheck : Session.check text session = (.ok diagnostic, after)) :
    ∃ search, session.Finds r search := by
  cases hsearch : Search.forReference r session.archive with
  | mk result searched =>
      cases result with
      | ok search => exact ⟨search, congrArg Prod.fst hsearch⟩
      | error fault =>
          have hfault : Resolver.check session.logs text session.archive =
              (.error fault, searched) := by
            unfold Resolver.check
            rw [hread]
            exact run_bind_error hsearch
          rw [check_eq_consult, SessionM.consult, hfault] at hcheck
          have hanswer := congrArg Prod.fst hcheck
          contradiction

theorem exists_finds_of_draw {outcome : DrawOutcome} {count : Nat}
    (hread : Reference.parse text = .ok r)
    (hdraw : Session.draw text count session = (.ok outcome, after)) :
    r.item = .wildcard ∧ ∃ search, session.Finds r search := by
  unfold Session.draw at hdraw
  rw [hread] at hdraw
  dsimp only at hdraw
  cases hitem : r.item with
  | named name =>
      rw [if_pos (by simp [Reference.isWildcard, hitem])] at hdraw
      have hanswer := congrArg Prod.fst hdraw
      contradiction
  | wildcard =>
      rw [if_neg (by simp [Reference.isWildcard, hitem])] at hdraw
      obtain ⟨diagnostic, checked, hcheck, _⟩ := exists_of_run_bind_ok hdraw
      exact ⟨rfl, exists_finds_of_check hread hcheck⟩

/-- A table is empty, or there is a lottery that it was drawn from. -/
theorem lottery_of_draw {table : DrawTable} {count : Nat}
    (hread : Reference.parse text = .ok r)
    (hdraw : Session.draw text count session = (.ok (.drawn table), after)) :
    table = ⟨text, 0, []⟩ ∨ ∃ search catalog items shares,
      session.Finds r search ∧ r.prospect search = .lottery catalog items shares := by
  obtain ⟨hitem, search, hfinds⟩ := exists_finds_of_draw hread hdraw
  cases hchances : Rarity.probabilities Float
      (((Resolver.listedAt search).getD []).map Item.weight) with
  | error fault =>
      obtain ⟨outcome, _, hrun, hempty⟩ := hfinds.draw_of_fault hread hitem hchances count
      have houtcome := congrArg Prod.fst (hrun.symm.trans hdraw)
      exact .inl (hempty table (Except.ok.inj houtcome))
  | ok chances =>
      obtain ⟨⟨weight, hweight, hlarge⟩, _⟩ := Rarity.probabilities_eq_ok_iff.mp hchances
      obtain ⟨item, hmem, rfl⟩ := List.mem_map.mp hweight
      cases search with
      | missing tried => simp [Resolver.listedAt] at hmem
      | found catalog leftover =>
          exact .inr ⟨_, _, _, _, hfinds,
            Reference.prospectIn_of_positive hitem ⟨item, hmem, hlarge⟩⟩

end Session
end GameCatalog
