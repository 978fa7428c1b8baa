import BettingPlatform.Settlement.Credits
import BettingPlatform.Settlement.History
import BettingPlatform.Settlement.NewResults

/-!
# Messages that are answered

A message counts as handled when `process_raw_message` returns, also when it returns `False`:
for an invalid event, for a known key, and for any integrity error.  Behind an integrity
error stands a bet with the same id under another key, or a user whose name is taken.

Main results:

- Theorem `integrityError_causes`: where an integrity error comes from.
- Theorem `answered_of_ok`: why a message needs no further delivery.
- Theorem `Answered.evolves`: the reason stays.
-/

namespace BettingPlatform
namespace Settlement

open Python Runs GrowingRows SettlementJava

/-! ## Integrity errors -/

section Causes

variable {db db' : Database} {event : BetResultEvent}

/-- The session raises the errors of the statements. -/
theorem sql_eq_integrityError_iff {α : Type} {x : Except SqlError α} :
    sql x = .error (.sql .integrityError) ↔ x = .error .integrityError := by
  cases x <;> simp [sql]

/-- A select breaks no constraint. -/
theorem idempotencyKeyExists_ne_integrityError {key : String} :
    idempotencyKeyExists db key ≠ .error .integrityError := by
  unfold idempotencyKeyExists
  split <;> simp

/-- An insert that meets an integrity error fails a check or clashes with a row. -/
theorem insert_eq_integrityError {ρ : Type} [Schema ρ] {t : Table ρ} {r : ρ}
    (h : t.insert r = .error .integrityError) : ¬ Schema.Check r ∨ ¬ t.Free r := by
  by_contra hnone
  obtain ⟨hcheck, hfree⟩ := not_or.mp hnone
  unfold Table.insert at h
  split at h
  · rw [dif_pos ⟨not_not.mp hcheck, not_not.mp hfree⟩] at h
    contradiction
  · simp at h

/-- A user is refused for a unique column. -/
theorem insertUser_eq_integrityError {r : User} (h : db.insertUser r = .error .integrityError) :
    db.users.insert r = .error .integrityError := by
  unfold Database.insertUser at h
  split at h
  · rename_i herror
    rwa [Except.error.inj h] at herror
  · contradiction

/-- So is a bet whose user exists. -/
theorem insertBet_eq_integrityError {r : Bet} (huser : HasUser db.users r.userId)
    (h : db.insertBet r = .error .integrityError) : db.bets.insert r = .error .integrityError := by
  unfold Database.insertBet at h
  split at h
  · rename_i herror
    rwa [Except.error.inj h] at herror
  · rw [dif_pos huser] at h
    contradiction

/-- A ledger row whose user exists is not refused. -/
theorem insertLedger_ne_integrityError {r : WalletLedger} (huser : HasUser db.users r.userId) :
    db.insertLedger r ≠ .error .integrityError := by
  intro h
  unfold Database.insertLedger at h
  split at h
  · rename_i herror
    rw [Except.error.inj h] at herror
    rcases insert_eq_integrityError herror with hcheck | hfree
    · exact hcheck trivial
    · exact hfree fun _ _ hclash => hclash
  · rw [dif_pos huser] at h
    contradiction

/-- The upsert of a user meets an integrity error when the name is another user's. -/
theorem upsertUser_eq_integrityError {user : Uuid} (hdb : db.Named)
    (h : upsertUser db user = .error .integrityError) : ¬ OwnName db user := by
  unfold upsertUser at h
  split at h
  · contradiction
  · rename_i hno
    rcases insert_eq_integrityError (insertUser_eq_integrityError h) with hcheck | hclash
    · exact absurd trivial hcheck
    · intro hown
      refine hclash fun r hr hsame => ?_
      rcases hsame with hid | hname
      · exact hno ⟨r, hr, hid⟩
      · exact hno ⟨r, hr, hown r hr (usernameOf_eq_iff.mp ((hdb r hr).symm.trans hname))⟩

/-- Nor is the opening of a wallet. -/
theorem upsertWallet_ne_error {user : Uuid} (huser : HasUser db.users user) {e : SqlError} :
    upsertWallet db user openingBalanceCents ≠ .error e := by
  unfold upsertWallet
  split
  · simp
  · rename_i hnone
    have hstorable : IsBigInteger openingBalanceCents := by decide
    obtain ⟨db', hinsert⟩ := exists_insertOpening huser (by simpa using hnone) hstorable (by decide)
    simp [hinsert]

/-- The debit leaves no balance negative, so the check on balances never fails. -/
theorem debitWallet_ne_integrityError {user : Uuid} {stakeCents : Int} :
    debitWallet db user stakeCents ≠ .error (.sql .integrityError) := by
  intro h
  unfold debitWallet at h
  simp only at h
  split at h
  · simp at h
  · rcases bind_eq_error_iff.mp h with herror | ⟨debited, -, h⟩
    · have hupdate := sql_eq_integrityError_iff.mp herror
      unfold Database.updateWallets Table.update at hupdate
      split at hupdate
      · rename_i hraised
        split at hraised
        · split at hraised
          · contradiction
          · rename_i hcheck
            refine hcheck fun r hr hp => ?_
            simp only [Database.walletWhere, Bool.and_eq_true, decide_eq_true_eq] at hp
            show 0 ≤ r.balanceCents - stakeCents
            omega
        · rw [Except.error.inj hupdate] at hraised
          simp at hraised
      · contradiction
    · split at h <;> simp at h

/-- Behind an integrity error stands a bet with the same id, or a user whose name is another
user's. -/
theorem integrityError_causes (hdb : db.Named)
    (h : processBetResultEvent event db = .error (.sql .integrityError)) :
    (∃ r ∈ db.bets.rows, r.id = event.betId) ∨ ¬ OwnName db event.userId := by
  unfold processBetResultEvent at h
  simp only [bind_eq_error_iff, sql_eq_integrityError_iff, idempotencyKeyExists_ne_integrityError,
    false_or, sql_eq_ok_iff] at h
  obtain ⟨known, hknown, h⟩ := h
  split at h
  · contradiction
  · rename_i hnew
    have hkey : ∀ b ∈ db.bets.rows, b.idempotencyKey ≠ event.idempotencyKey := by
      unfold idempotencyKeyExists at hknown
      split at hknown
      · obtain rfl := Except.ok.inj hknown
        exact Table.find_eq_none_iff.mp (by simpa using hnew)
      · contradiction
    have hclash : ∀ {db₃ : Database}, db₃.bets = db.bets → HasUser db₃.users event.userId →
        db₃.insertBet event.bet = .error .integrityError →
        ∃ r ∈ db.bets.rows, r.id = event.betId := by
      intro db₃ hbets huser hinsert
      rcases insert_eq_integrityError (insertBet_eq_integrityError huser hinsert) with hcheck | hfree
      · exact absurd trivial hcheck
      · unfold Table.Free at hfree
        push Not at hfree
        rw [hbets] at hfree
        obtain ⟨r, hr, hid | hsame⟩ := hfree
        · exact ⟨r, hr, hid⟩
        · exact absurd hsame (hkey r hr)
    simp only [bind_eq_error_iff, sql_eq_integrityError_iff, sql_eq_ok_iff] at h
    rcases h with hname | ⟨db₁, huser, h⟩
    · exact Or.inr (upsertUser_eq_integrityError hdb hname)
    · obtain ⟨hhas, -, hbets₁, -, -⟩ := upsertUser_eq_ok huser
      rcases h with hwallet | ⟨db₂, hwallet, h⟩
      · exact absurd hwallet (upsertWallet_ne_error hhas)
      · obtain ⟨-, husers₂, hbets₂, -, -⟩ := upsertWallet_eq_ok hwallet
        split at h
        · simp only [bind_eq_error_iff, sql_eq_integrityError_iff, sql_eq_ok_iff,
            debitWallet_ne_integrityError, false_or] at h
          obtain ⟨db₃, hdebit, h⟩ := h
          obtain ⟨-, husers₃, hbets₃, -, -⟩ := debitWallet_eq_ok hdebit
          have hhas₃ : HasUser db₃.users event.userId := by
            rw [husers₃, husers₂]
            exact hhas
          rcases h with hbet | ⟨db₄, hbet, h⟩
          · exact Or.inl (hclash (hbets₃.trans (hbets₂.trans hbets₁)) hhas₃ hbet)
          · have hhas₄ : HasUser db₄.users event.userId := by
              rw [(Database.insertBet_eq_ok_iff.mp hbet).2.2.1]
              exact hhas₃
            rcases h with hledger | ⟨db₅, -, h⟩
            · exact absurd hledger (insertLedger_ne_integrityError hhas₄)
            · contradiction
        · simp only [bind_eq_error_iff, sql_eq_integrityError_iff, sql_eq_ok_iff] at h
          rcases h with hbet | ⟨db₃, -, h⟩
          · exact Or.inl (hclash (hbets₂.trans hbets₁) (husers₂ ▸ hhas) hbet)
          · contradiction

end Causes

/-! ## Answered messages -/

/-- Why a message of the results topic needs no further delivery: it is no valid event, or
its key is stored, or its bet id is, or its user's name is another user's. -/
def Answered (db : Database) (raw : Bytes) : Prop :=
  ∀ event, eventOf raw = some event →
    Known db event.idempotencyKey ∨ (∃ r ∈ db.bets.rows, r.id = event.betId) ∨
      ¬ OwnName db event.userId

/-- A known key stays known. -/
theorem Database.Evolves.known {db db' : Database} (h : db.Evolves db') {key : String}
    (hknown : Known db key) : Known db' key := by
  obtain ⟨bet, hbet, rfl⟩ := hknown
  obtain ⟨bet', hbet', hbecomes⟩ := h.bets.exists_of_mem hbet
  exact ⟨bet', hbet', by rw [hbecomes.columns]⟩

/-- What answers a message stays. -/
theorem Answered.evolves {db db' : Database} {raw : Bytes} (hanswered : Answered db raw)
    (h : db.Evolves db') : Answered db' raw := by
  intro event hevent
  rcases hanswered event hevent with hknown | ⟨r, hr, hid⟩ | hname
  · exact Or.inl (h.known hknown)
  · obtain ⟨r', hr', hbecomes⟩ := h.bets.exists_of_mem hr
    exact Or.inr (Or.inl ⟨r', hr', by rw [hbecomes.columns]; exact hid⟩)
  · refine Or.inr (Or.inr fun hown => hname fun r hr hsame => ?_)
    exact hown r (h.users.subset hr) hsame

/-- A call that returns has answered the message. -/
theorem answered_of_ok {db db' : Database} {raw : Bytes} {b : Bool} (hdb : db.Named)
    (h : processRawMessage raw db = .ok (b, db')) : Answered db' raw := by
  intro event hevent
  obtain ⟨payload, hpayload, -⟩ := Option.bind_eq_some_iff.mp hevent
  rw [processRawMessage_eq, hpayload, hevent] at h
  simp only at h
  split at h
  · rename_i herror
    obtain ⟨-, rfl⟩ := Prod.mk.inj (Except.ok.inj h)
    exact Or.inr (integrityError_causes hdb herror)
  · rcases processBetResultEvent_eq_ok h with ⟨-, rfl, bet, hbet, hkey⟩ | ⟨-, hpersisted⟩
    · exact Or.inl ⟨bet, hbet, hkey⟩
    · exact Or.inl ⟨event.bet, by simp [hpersisted.bets], rfl⟩

end Settlement
end BettingPlatform
