import BettingPlatform.Settlement.OutcomeRaces

/-!
# Runs of concurrent settlements

A settlement that comes to a row another settlement has locked passes over it, although the
other one may name another winner or be aborted.  So two settlements can share the bets of a
match between two winners.  As long as no settlement comes to a locked row, every interleaving
leaves the database that the committed settlements leave one after the other, and the first of
them has closed every bet.

Main results:

- Theorem `settlements_serialize`: the runs in which no settlement comes to a locked row.
- Theorem `settlements_split`: two settlements, each with half of the bets.
-/

namespace BettingPlatform
namespace Settlement
namespace OutcomeRaces

open Runs Schema

variable {ι : Type} [Fintype ι] [DecidableEq ι]

/-! ## A settlement's own steps -/

section Own

variable {matchId winningSelectionId : String} {s : Calls ι} {i : ι} {call call' : Call}

/-- A settlement is in agreement, has not returned, and has locked rows that it held before or
that nobody else holds. -/
structure Agrees (matchId winningSelectionId : String) (s : Calls ι) (i : ι) (call : Call) :
    Prop where
  consistent : Consistent matchId winningSelectionId s.db call
  locked : ∀ r ∈ call.locked, r ∈ (s.calls i).locked ∨ ¬ BlockedRow (lockedBets s.calls) i r
  unreturned : ¬ call.hasReturned

omit [Fintype ι] [DecidableEq ι] in
/-- A settlement that has ended holds nothing. -/
theorem agrees_ended : Agrees matchId winningSelectionId s i .ended where
  consistent := ⟨rfl, rfl⟩
  locked := by simp [Call.ended]
  unreturned := by simp [Call.ended, Call.hasReturned]

omit [Fintype ι] [DecidableEq ι] in
/-- The accepted bets of a match have distinct ids. -/
theorem openBets_distinct (db : Database) (matchId : String) :
    (db.openBets matchId).Pairwise fun r s => r.id ≠ s.id :=
  (db.bets.distinct.imp fun hclash hid => hclash (Or.inl hid)).filter _

/-- A free row is locked exactly when it is still accepted. -/
theorem lock_eq {bet : Bet} {rest : List Bet} (hfree : ¬ BlockedRow (lockedBets s.calls) i bet)
    (hdistinct : (call.locked ++ bet :: rest).Pairwise fun r s => r.id ≠ s.id)
    (hopen : s.db.openBets matchId =
      call.locked ++ (bet :: rest).filter (· ∈ s.db.openBets matchId)) :
    lock matchId s i bet = if bet ∈ s.db.openBets matchId then [bet] else [] := by
  rw [lock, if_neg hfree]
  have hfind : ∀ r, s.db.bets.find Bet.id bet.id = some r ↔ r ∈ s.db.bets.rows ∧ r.id = bet.id :=
    fun r => Table.find_eq_some_iff fun _ _ hid => Or.inl hid
  split
  · rename_i hmem
    obtain ⟨hrow, haccepted⟩ := List.mem_filter.mp hmem
    simp [(hfind bet).mpr ⟨hrow, rfl⟩, haccepted]
  · rename_i hclosed
    rw [List.filter_eq_nil_iff]
    intro r hr haccepted
    obtain ⟨hrow, hid⟩ := (hfind r).mp (by simpa using hr)
    have hmem : r ∈ s.db.openBets matchId := List.mem_filter.mpr ⟨hrow, haccepted⟩
    obtain ⟨-, hrest, hlocked⟩ := List.pairwise_append.mp hdistinct
    rw [hopen, List.mem_append, List.mem_filter, List.mem_cons] at hmem
    rcases hmem with hmem | ⟨rfl | hmem, hstill⟩
    · exact hlocked r hmem bet List.mem_cons_self hid
    · exact hclosed (by simpa using hstill)
    · exact (List.pairwise_cons.mp hrest).1 r hmem hid.symm

/-- A settlement that locks a free row, or finds it closed, stays in agreement. -/
theorem agrees_lock {bet : Bet} {rest : List Bet}
    (h : Consistent matchId winningSelectionId s.db (s.calls i))
    (hphase : (s.calls i).phase = .scanning (bet :: rest))
    (hfree : ¬ BlockedRow (lockedBets s.calls) i bet) :
    Agrees matchId winningSelectionId s i
      { s.calls i with
        phase := .scanning rest
        locked := (s.calls i).locked ++ lock matchId s i bet } := by
  unfold Consistent at h
  rw [hphase] at h
  obtain ⟨htext, hwritten, hdistinct, hopen⟩ := h
  rw [lock_eq hfree hdistinct hopen]
  split
  · rename_i hmem
    refine ⟨⟨htext, hwritten, by simpa using hdistinct, ?_⟩, fun r hr => ?_, by
      simp [Call.hasReturned]⟩
    · simpa [List.filter_cons, hmem] using hopen
    · rcases List.mem_append.mp hr with hr | hr
      · exact Or.inl hr
      · obtain rfl := List.mem_singleton.mp hr
        exact Or.inr hfree
  · rename_i hclosed
    rw [List.append_nil]
    refine ⟨⟨htext, hwritten, ?_, ?_⟩, fun r hr => Or.inl hr, by simp [Call.hasReturned]⟩
    · exact hdistinct.sublist (List.Sublist.append_left (List.sublist_cons_self bet rest) _)
    · simpa [List.filter_cons, hclosed] using hopen

/-- A settlement that closes the next bet of its loop stays in agreement. -/
theorem agrees_settle {bet : Bet} {rest : List Bet} {response : SettleMatchResponse}
    (h : Consistent matchId winningSelectionId s.db (s.calls i))
    (hphase : (s.calls i).phase = .settling (bet :: rest) response)
    (hstep : settle winningSelectionId s i (s.calls i) bet rest response = some call') :
    Agrees matchId winningSelectionId s i call' := by
  unfold Consistent at h
  rw [hphase] at h
  obtain ⟨htext, hopen, processed, reached, hlocked, hprogress⟩ := h
  have hbets : ∀ r ∈ processed ++ [bet], r ∈ s.db.bets.rows := by
    intro r hr
    have hmem : r ∈ s.db.openBets matchId := by
      rw [hopen, hlocked]
      rcases List.mem_append.mp hr with hr | hr
      · exact List.mem_append_left _ hr
      · obtain rfl := List.mem_singleton.mp hr
        simp
    exact (List.mem_filter.mp hmem).1
  have hsplit : (s.calls i).locked = processed ++ [bet] ++ rest := by
    simp [hlocked]
  unfold settle at hstep
  split at hstep
  · rename_i hwon
    split at hstep
    · obtain rfl := Option.some.inj hstep
      exact agrees_ended
    · rename_i payoutCents hpayout
      split at hstep
      · obtain rfl := Option.some.inj hstep
        exact agrees_ended
      · rename_i hfits
        split at hstep
        · contradiction
        · split at hstep
          · obtain rfl := Option.some.inj hstep
            exact agrees_ended
          · rename_i wallets hcredit
            obtain rfl := Option.some.inj hstep
            obtain ⟨reached', hprogress'⟩ :=
              hprogress.won hbets hwon hpayout (not_not.mp hfits) hcredit
            exact ⟨⟨htext, hopen, processed ++ [bet], reached', hsplit, hprogress'⟩,
              fun r hr => Or.inl hr, by simp [Call.hasReturned]⟩
  · rename_i hlost
    obtain rfl := Option.some.inj hstep
    obtain ⟨reached', hprogress'⟩ := hprogress.lost hbets hlost
    exact ⟨⟨htext, hopen, processed ++ [bet], reached', hsplit, hprogress'⟩,
      fun r hr => Or.inl hr, by simp [Call.hasReturned]⟩

/-- Each step of a settlement that does not come to a locked row keeps it in agreement. -/
theorem agrees_runStatement (h : Consistent matchId winningSelectionId s.db (s.calls i))
    (hpass : ∀ bet ∈ (s.calls i).next, ¬ BlockedRow (lockedBets s.calls) i bet)
    (hstep : runStatement matchId winningSelectionId s i (s.calls i) = some call') :
    Agrees matchId winningSelectionId s i call' := by
  unfold runStatement at hstep
  split at hstep
  · rename_i hphase
    split at hstep
    · obtain rfl := Option.some.inj hstep
      exact agrees_ended
    · rename_i htext
      obtain rfl := Option.some.inj hstep
      unfold Consistent at h
      rw [hphase] at h
      refine ⟨⟨not_not.mp htext, h.2, ?_, ?_⟩, fun r hr => Or.inl hr, by simp [Call.hasReturned]⟩
      · simpa [h.1] using openBets_distinct s.db matchId
      · rw [h.1, List.nil_append, eq_comm, List.filter_eq_self]
        exact fun r hr => by simpa using hr
  · rename_i bet rest hphase
    obtain rfl := Option.some.inj hstep
    exact agrees_lock h hphase (hpass bet (by simp [Call.next, hphase]))
  · rename_i hphase
    obtain rfl := Option.some.inj hstep
    unfold Consistent at h
    rw [hphase] at h
    obtain ⟨htext, hwritten, -, hopen⟩ := h
    rw [List.filter_nil, List.append_nil] at hopen
    refine ⟨⟨htext, hopen, [], s.db, rfl, ?_⟩, fun r hr => Or.inl hr, by simp [Call.hasReturned]⟩
    rw [hwritten]
    exact progress_nil
  · rename_i hphase
    exact agrees_settle h hphase hstep
  · contradiction
  · contradiction
  · contradiction

end Own

/-! ## What a step can do -/

section Step

variable {matchId : String} {winner : ι → String} {s : Calls ι} {i : ι} {move : Move} {call : Call}

/-- A settlement that moves has run a statement, or its transaction has ended. -/
theorem act_eq_moved (h : act matchId winner s i move = some (.moved call)) :
    ¬ (s.calls i).hasReturned ∧
      (call = .ended ∨
        move = .run ∧ runStatement matchId (winner i) s i (s.calls i) = some call) := by
  unfold act at h
  split at h
  · contradiction
  · contradiction
  · rename_i hreturned _
    obtain rfl := Outcome.moved.inj (Option.some.inj h)
    exact ⟨fun ⟨response, hphase⟩ => hreturned response hphase, Or.inl rfl⟩
  · rename_i hphase
    split at h
    · obtain rfl := Outcome.moved.inj (Option.some.inj h)
      exact ⟨by simp [Call.hasReturned, hphase], Or.inl rfl⟩
    · simp at h
  · rename_i hreturned _ _
    obtain ⟨call', hcall, hmoved⟩ := Option.map_eq_some_iff.mp h
    obtain rfl := Outcome.moved.inj hmoved
    exact ⟨fun ⟨response, hphase⟩ => hreturned response hphase, Or.inr ⟨rfl, hcall⟩⟩

/-- A settlement that commits has come to the end of its loop. -/
theorem act_eq_committed {db : Database}
    (h : act matchId winner s i move = some (.committed call db)) :
    ∃ response, (s.calls i).phase = .settling [] response ∧
      install (s.calls i).written s.db = .ok db ∧ call = ⟨.returned response, [], .nothing⟩ := by
  unfold act at h
  split at h
  · contradiction
  · contradiction
  · simp at h
  · rename_i response hphase
    split at h
    · simp at h
    · rename_i hinstall
      obtain ⟨rfl, rfl⟩ := Outcome.committed.inj (Option.some.inj h)
      exact ⟨response, hphase, hinstall, rfl⟩
  · obtain ⟨_, -, hmoved⟩ := Option.map_eq_some_iff.mp h
    contradiction

end Step

/-- What a settlement that returns makes of the database. -/
def settleAlone (matchId : String) (winner : ι → String) (i : ι) (db : Database) :
    Option Database :=
  match settleMatchOutcome matchId (winner i) db with
  | .ok (_, db') => some db'
  | .error _ => none

/-! ## Every interleaving that passes over no lock is serial -/

section Run

variable {matchId : String} {winner : ι → String}

omit [Fintype ι] in
/-- The rows locked by the others do not change. -/
theorem lockedBets_update (calls : ι → Call) (i : ι) (call : Call) :
    lockedBets (Function.update calls i call) =
      Function.update (lockedBets calls) i call.locked :=
  Function.comp_update Call.locked calls i call

/-- Steps that come to no locked row keep the settlements serializable. -/
theorem settlements_serialized :
    Serializes (fun s i move => if PassesNoLock s (i, move) then act matchId winner s i move
        else none)
      (settleAlone matchId winner) (fun i => Consistent matchId (winner i))
      (fun calls => ApartRows (lockedBets calls)) Call.hasReturned where
  moved := by
    intro s i move call hconsistent hapart hstep
    obtain ⟨hpass, hact⟩ := Option.ite_none_right_eq_some.mp hstep
    obtain ⟨hbefore, hmoved⟩ := act_eq_moved hact
    have hagrees : Agrees matchId (winner i) s i call := by
      rcases hmoved with rfl | ⟨rfl, hrun⟩
      · exact agrees_ended
      · exact agrees_runStatement (hconsistent i) (hpass rfl) hrun
    refine ⟨hagrees.consistent, ?_, hbefore, hagrees.unreturned⟩
    rw [lockedBets_update]
    exact hapart.update hagrees.locked
  committed := by
    intro s i move call db hconsistent hapart hstep
    obtain ⟨hpass, hact⟩ := Option.ite_none_right_eq_some.mp hstep
    obtain ⟨response, hphase, hinstall, rfl⟩ := act_eq_committed hact
    obtain ⟨db', hinstall', halone⟩ := (hconsistent i).commit hphase
    obtain rfl := Except.ok.inj (hinstall.symm.trans hinstall')
    have hnil : db.openBets matchId = [] := (settles_of_ok halone).openBets_eq_nil
    refine ⟨by simp [settleAlone, halone], ⟨rfl, rfl⟩, fun j hj => ?_, ?_, ?_, ⟨response, rfl⟩⟩
    · refine (hconsistent j).closed (List.eq_nil_iff_forall_not_mem.mpr fun r hr => ?_) hnil
      have hown : r ∈ (s.calls i).locked := by
        rw [(hconsistent i).locked_all hphase]
        exact (hconsistent j).locked_open r hr
      exact hapart i j (Ne.symm hj) r hown r hr (Or.inl rfl)
    · rw [lockedBets_update]
      exact hapart.update (by simp)
    · simp [Call.hasReturned, hphase]

omit [Fintype ι] [DecidableEq ι] in
/-- Before the first commit the order is empty. -/
theorem start_serialized (db : Database) :
    Serialized (settleAlone matchId winner) (fun i => Consistent matchId (winner i))
      (fun calls => ApartRows (lockedBets calls)) Call.hasReturned db (Calls.start db) where
  consistent := fun i => ⟨rfl, rfl⟩
  apart := by
    intro i j _ r hr
    contradiction
  serial := rfl
  nodup := List.nodup_nil
  committed := fun i => by simp [Calls.start, Call.hasReturned]

omit [Fintype ι] [DecidableEq ι] in
/-- Behind the first settlement the others find nothing to do. -/
theorem serial_settleAlone {db db' : Database} {first : ι} {rest : List ι}
    (h : serial (settleAlone matchId winner) db (first :: rest) = some db') :
    ∃ response, Settles matchId (winner first) db response db' := by
  rw [serial, List.foldlM_cons] at h
  obtain ⟨db₁, hfirst, hrest⟩ := Option.bind_eq_some_iff.mp h
  have hsettled : ∃ response,
      settleMatchOutcome matchId (winner first) db = .ok (response, db₁) := by
    unfold settleAlone at hfirst
    split at hfirst
    · rename_i response db₂ hsettle
      obtain rfl := Option.some.inj hfirst
      exact ⟨response, hsettle⟩
    · contradiction
  obtain ⟨response, hsettle⟩ := hsettled
  have htext := (settleMatchOutcome_isOk_iff.mp ⟨_, hsettle⟩).1
  have hsettles := settles_of_ok hsettle
  have hsame : ∀ {order : List ι}, serial (settleAlone matchId winner) db₁ order = some db' →
      db' = db₁ := by
    intro order horder
    refine @serial_invariant _ _ _ (fun _ db => db = db₁) _ _ _ rfl ?_ horder
    rintro done db₂ db₃ i rfl hi
    unfold settleAlone at hi
    rw [settleMatchOutcome_of_nil htext hsettles.openBets_eq_nil] at hi
    exact (Option.some.inj hi).symm
  rw [hsame hrest]
  exact ⟨response, hsettles⟩

/-- As long as no settlement comes to a row that another one has locked, the committed database
is the one that the committed settlements leave one after the other: the first of them has closed
every accepted bet of the match for its winner, and the others have changed nothing. -/
theorem settlements_serialize {db : Database} {s : Calls ι}
    (hrun : Reaches (step matchId winner) PassesNoLock (Calls.start db) s) :
    serial (settleAlone matchId winner) db s.commits = some s.db ∧ s.commits.Nodup ∧
      (∀ i, i ∈ s.commits ↔ (s.calls i).hasReturned) ∧
      ∀ first ∈ s.commits.head?, s.db.openBets matchId = [] ∧
        ∃ response, Settles matchId (winner first) db response s.db := by
  have hserialized := serialized_of_guarded settlements_serialized (start_serialized db) hrun
  refine ⟨hserialized.serial, hserialized.nodup, hserialized.committed, fun first hfirst => ?_⟩
  obtain ⟨rest, hcommits⟩ := List.head?_eq_some_iff.mp hfirst
  have hserial := hserialized.serial
  rw [hcommits] at hserial
  obtain ⟨response, hsettles⟩ := serial_settleAlone hserial
  exact ⟨hsettles.openBets_eq_nil, response, hsettles⟩

end Run

/-! ## Two winners -/

/-- A bet of 100 at odds of 2 in match `"m1"`. -/
def evenBet (id : Uuid) (idempotencyKey selectionId : String) : Bet where
  id := id
  userId := 7
  idempotencyKey := idempotencyKey
  matchId := "m1"
  selectionId := selectionId
  stakeCents := 100
  odds := ⟨false, 20000, -4⟩
  status := .accepted
  rejectionReason := none

/-- User 7 has bet on both sides of the match. -/
def sampleMatch : Database :=
  databaseOf [⟨7, "user-00000000"⟩] [⟨7, 0⟩] [evenBet 1 "k1" "home", evenBet 2 "k2" "away"]

/-- One settlement for each side. -/
def sampleWinner (second : Bool) : String :=
  if second then "away" else "home"

/-- The second settlement takes its snapshot, the first one runs through, and the second one
finds the rows closed. -/
theorem settlements_serialize_sample :
    ∃ s : Calls Bool, s.commits = [false, true] ∧
      s.db.bets.rows.map Bet.status = [.won, .lost] ∧ s.db.openBets "m1" = [] ∧
      serial (settleAlone "m1" sampleWinner) sampleMatch [false, true] = some s.db := by
  have hexec : (([(true, .run), (false, .run), (false, .run), (false, .run), (false, .run),
      (false, .run), (false, .run), (false, .run), (true, .run), (true, .run), (true, .run),
      (true, .run)] : List (Bool × Move)).foldlM
      (fun s label => if decide (PassesNoLock s label) then step "m1" sampleWinner s label
        else none) (Calls.start sampleMatch)).map
        (fun s => (s.commits, s.db.bets.rows.map Bet.status)) =
      some ([false, true], [.won, .lost]) := by
    decide +kernel
  obtain ⟨s, hs, hvalues⟩ := Option.map_eq_some_iff.mp hexec
  obtain ⟨hcommits, hstatuses⟩ := Prod.mk.inj hvalues
  obtain ⟨hserial, -, -, hfirst⟩ := settlements_serialize
    (Reaches.of_foldlM_checked (fun _ _ => of_decide_eq_true) hs)
  rw [hcommits] at hserial hfirst
  exact ⟨s, hcommits, hstatuses, (hfirst false rfl).1, hserial⟩

/-- Each settlement locks the bet on its own winner and passes over the other one, and both
commit: both bets are won. -/
theorem settlements_split :
    ¬ ∀ (matchId : String) (winner : Bool → String) (db : Database) (s : Calls Bool),
      Reachable (step matchId winner) (Calls.start db) s →
        ∃ order : List Bool, order.Perm s.commits ∧
          serial (settleAlone matchId winner) db order = some s.db := by
  have hexec : (([(false, .run), (true, .run), (false, .run), (true, .run), (true, .run),
      (true, .run), (false, .run), (false, .run), (false, .run), (false, .run), (true, .run),
      (true, .run)] : List (Bool × Move)).foldlM (step "m1" sampleWinner)
      (Calls.start sampleMatch)).map
        (fun s => (s.commits, s.db.bets.rows.map Bet.status)) =
      some ([false, true], [.won, .won]) := by
    decide +kernel
  obtain ⟨s, hs, hvalues⟩ := Option.map_eq_some_iff.mp hexec
  obtain ⟨hcommits, hstatuses⟩ := Prod.mk.inj hvalues
  intro hclaim
  obtain ⟨order, hperm, hserial⟩ := hclaim _ _ _ _ (Reaches.of_foldlM hs)
  rw [hcommits] at hperm
  cases order with
  | nil => exact absurd hperm.length_eq (by decide)
  | cons first rest =>
      obtain ⟨response, hsettles⟩ := serial_settleAlone hserial
      rw [hsettles.bets] at hstatuses
      revert hstatuses
      cases first <;> decide +kernel

end OutcomeRaces
end Settlement
end BettingPlatform
