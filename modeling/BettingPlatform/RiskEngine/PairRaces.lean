import BettingPlatform.RiskEngine.AtomicSteps

/-!
# Two evaluations that race

Two valid bets on one account are evaluated at one clock reading, and their atomic
steps interleave in any way.  The debit comes before the exposure check and is refunded
when that check fails, so the other call can observe a balance that no order of the two
calls would show it.

Main results:

- Theorem `Race.Standing.advance`: one atomic step keeps a call where it can stand.
- Theorem `Race.contest_of_reached`: what each call knows of the other, in every state
  an interleaving reaches.
-/

namespace BettingPlatform
namespace RiskEngine

open Runs

/-! ## The two bets -/

/-- Two valid bets on one account, and the engine and the clock they meet. -/
structure Race [FieldOrder] where
  cap : Int
  now : Int
  accounts : Accounts
  account : Bytes
  payload : Bool → Bytes
  bet : Bool → BetSubmitted
  fits : accounts.Fits
  parsed : ∀ i, parseBetJson (payload i) = .ok (bet i)
  own : ∀ i, (bet i).accountId = account

namespace Race

variable [FieldOrder] (race : Race)

/-- The stake of a bet. -/
def stake (i : Bool) : Int :=
  (race.bet i).stakeCents

/-- The payout of a bet. -/
def payout (i : Bool) : Int :=
  (race.bet i).potentialPayoutCents

/-- The quote of a bet is not too old. -/
def Fresh (i : Bool) : Prop :=
  race.now - (race.bet i).betTimestampMs ≤ staleQuoteProtectionMs

instance (i : Bool) : Decidable (race.Fresh i) :=
  inferInstanceAs (Decidable (_ ≤ _))

/-- Neither call has started. -/
def start : Threads Bool where
  shared := race.accounts
  calls := fun _ => .idle

/-- A call that starts reads the race's clock. -/
def AtClock (_ : Threads Bool) (label : Bool × Move) : Prop :=
  ∀ time, label.2 = .start time → time = race.now

/-- The states that the interleavings of the two calls reach. -/
abbrev Reached (t : Threads Bool) : Prop :=
  Reaches (threadStep race.cap race.payload) race.AtClock race.start t

variable {race} {i : Bool}

theorem stake_pos (i : Bool) : 0 < race.stake i :=
  (parseBetJson_valid (race.parsed i)).stake_pos

theorem payout_pos (i : Bool) : 0 < race.payout i :=
  Int.lt_of_lt_of_le (stake_pos i) (parseBetJson_valid (race.parsed i)).stake_le_payout

omit [FieldOrder] in
/-- A sum over both calls, one of them first. -/
theorem sum_calls (part : Bool → Int) (i : Bool) : ∑ j, part j = part i + part !i := by
  cases i
  · rw [Fintype.sum_bool, Int.add_comm, Bool.not_false]
  · rw [Fintype.sum_bool, Bool.not_true]

/-! ## What a call knows -/

variable (race)

/-- The other call has debited its stake, and may have given it back since. -/
inductive HasDebited (i : Bool) : Call → Prop
  | reserve {remaining : Int} : HasDebited i (.reserve (race.bet i) race.now remaining)
  | refund {remaining : Int} : HasDebited i (.refund (race.bet i) race.now remaining)
  | saecExceeded {remaining : Int} :
      HasDebited i (.returned (race.bet i) (.saecExceeded (race.bet i) race.now remaining))
  | acceptance {exposure remaining : Int} :
      HasDebited i (.returned (race.bet i) (.acceptance (race.bet i) race.now exposure remaining))

/-- The call was accepted. -/
inductive HasReserved (i : Bool) : Call → Prop
  | acceptance {exposure remaining : Int} :
      HasReserved i (.returned (race.bet i) (.acceptance (race.bet i) race.now exposure remaining))

/-- A balance the call can have observed: that of the start, less the other's stake
when the other had debited it. -/
def Observed (i : Bool) (other : Call) (current : Int) : Prop :=
  ∃ balance, race.accounts.balances race.account = some balance ∧
    (current = balance ∨ race.HasDebited (!i) other ∧ current = balance - race.stake !i)

/-- The balance of the start covers the bet. -/
def Covered (i : Bool) : Prop :=
  ∃ balance, race.accounts.balances race.account = some balance ∧ race.stake i ≤ balance

/-- The payout of the bet does not fit under the cap, alone or with the other's. -/
def Crowded (i : Bool) (other : Call) : Prop :=
  race.cap < race.accounts.exposure race.account + race.payout i ∨
    race.HasReserved (!i) other ∧
      race.cap < race.accounts.exposure race.account + (race.payout i + race.payout !i) ∧
      ∃ balance, race.accounts.balances race.account = some balance ∧
        race.stake i + race.stake (!i) ≤ balance

/-- Where one call can stand, given where the other stands. -/
inductive Standing (i : Bool) (other : Call) : Call → Prop
  | idle : Standing i other .idle
  | staleQuote : ¬ race.Fresh i →
      Standing i other (.returned none (.staleQuote (race.bet i) race.now))
  | find : race.Fresh i → Standing i other (.find (race.bet i) race.now)
  | accountNotFound : race.Fresh i → race.accounts.balances race.account = none →
      Standing i other (.returned (race.bet i) (.accountNotFound (race.bet i) race.now))
  | load : race.Fresh i → Standing i other (.load (race.bet i) race.now)
  | compare {current : Int} : race.Fresh i → race.Observed i other current →
      Standing i other (.compare (race.bet i) race.now current)
  | insufficientFunds {current : Int} : race.Fresh i → race.Observed i other current →
      current < race.stake i →
      Standing i other
        (.returned (race.bet i) (.insufficientFunds (race.bet i) race.now current))
  | reserve {remaining : Int} : race.Fresh i → race.Covered i →
      Standing i other (.reserve (race.bet i) race.now remaining)
  | refund {remaining : Int} : race.Fresh i → race.Covered i → race.Crowded i other →
      Standing i other (.refund (race.bet i) race.now remaining)
  | saecExceeded {remaining : Int} : race.Fresh i → race.Covered i → race.Crowded i other →
      Standing i other (.returned (race.bet i) (.saecExceeded (race.bet i) race.now remaining))
  | acceptance {exposure remaining : Int} : race.Fresh i → race.Covered i →
      race.accounts.exposure race.account + race.payout i ≤ race.cap →
      Standing i other
        (.returned (race.bet i) (.acceptance (race.bet i) race.now exposure remaining))

variable {race} {i : Bool} {other other' call call' : Call}

/-- A call that has taken nothing has debited nothing or gives it back. -/
theorem Standing.debited (hcall : race.Standing i other call) :
    call.debited race.account = 0 ∨
      race.HasDebited i call ∧ call.debited race.account = race.stake i := by
  have hown := race.own i
  cases hcall with
  | reserve => exact Or.inr ⟨.reserve, by simp [Call.debited, hown, stake]⟩
  | refund => exact Or.inr ⟨.refund, by simp [Call.debited, hown, stake]⟩
  | acceptance =>
      exact Or.inr ⟨.acceptance, by
        simp [Call.debited, hown, stake, BetResult.acceptance, BetResult.ofBet]⟩
  | _ => exact Or.inl rfl

/-- A call has reserved nothing, or its payout behind its stake. -/
theorem Standing.reserved (hcall : race.Standing i other call) :
    call.reserved race.account = 0 ∨
      race.HasReserved i call ∧ call.reserved race.account = race.payout i ∧
        call.debited race.account = race.stake i := by
  have hown := race.own i
  cases hcall with
  | acceptance =>
      refine Or.inr ⟨.acceptance, ?_, ?_⟩
      · simp [Call.reserved, hown, payout, BetResult.acceptance, BetResult.ofBet]
      · simp [Call.debited, hown, stake, BetResult.acceptance, BetResult.ofBet]
  | _ => exact Or.inl rfl

/-- A call takes from its own account only. -/
theorem Standing.debited_of_ne (hcall : race.Standing i other call) {account : Bytes}
    (hne : race.account ≠ account) : call.debited account = 0 := by
  have hown := race.own i
  cases hcall <;> simp [Call.debited, hown, hne]

/-- A call never holds less than nothing of its account. -/
theorem Standing.debited_nonneg (hcall : race.Standing i other call) :
    0 ≤ call.debited race.account := by
  have hpos := race.stake_pos i
  rcases hcall.debited with hzero | ⟨-, hstake⟩
  · exact Int.le_of_eq hzero.symm
  · omega

/-- What is known of a call stays known when the other moves on. -/
theorem Standing.of_other (hcall : race.Standing i other call)
    (hdebited : race.HasDebited (!i) other → race.HasDebited (!i) other')
    (hreserved : race.HasReserved (!i) other → race.HasReserved (!i) other') :
    race.Standing i other' call := by
  have hobserved : ∀ {current}, race.Observed i other current → race.Observed i other' current := by
    rintro current ⟨balance, hbalance, hvalue | ⟨hother, hvalue⟩⟩
    · exact ⟨balance, hbalance, Or.inl hvalue⟩
    · exact ⟨balance, hbalance, Or.inr ⟨hdebited hother, hvalue⟩⟩
  have hcrowded : race.Crowded i other → race.Crowded i other' := by
    rintro (hcap | ⟨hother, hcap, hcovered⟩)
    · exact Or.inl hcap
    · exact Or.inr ⟨hreserved hother, hcap, hcovered⟩
  cases hcall with
  | idle => exact .idle
  | staleQuote hstale => exact .staleQuote hstale
  | find hfresh => exact .find hfresh
  | accountNotFound hfresh hnone => exact .accountNotFound hfresh hnone
  | load hfresh => exact .load hfresh
  | compare hfresh hseen => exact .compare hfresh (hobserved hseen)
  | insufficientFunds hfresh hseen hshort => exact .insufficientFunds hfresh (hobserved hseen) hshort
  | reserve hfresh hcovered => exact .reserve hfresh hcovered
  | refund hfresh hcovered hfull => exact .refund hfresh hcovered (hcrowded hfull)
  | saecExceeded hfresh hcovered hfull => exact .saecExceeded hfresh hcovered (hcrowded hfull)
  | acceptance hfresh hcovered hroom => exact .acceptance hfresh hcovered hroom

/-! ## One step -/

section Step

variable {s s' : Accounts} {move : Move}

/-- A debit stays made. -/
theorem HasDebited.advance (hcall : race.HasDebited i call)
    (hstep : advance race.cap race.payload i s call move = some (s', call')) :
    race.HasDebited i call' := by
  cases hcall with
  | reserve =>
      cases move with
      | atomic =>
          simp only [RiskEngine.advance] at hstep
          split at hstep
          · obtain ⟨-, rfl⟩ := Prod.mk.inj (Option.some.inj hstep)
            exact .refund
          · obtain ⟨-, rfl⟩ := Prod.mk.inj (Option.some.inj hstep)
            exact .acceptance
      | start time => contradiction
      | spurious => contradiction
  | refund =>
      cases move with
      | atomic =>
          obtain ⟨-, rfl⟩ := Prod.mk.inj (Option.some.inj hstep)
          exact .saecExceeded
      | start time => contradiction
      | spurious => contradiction
  | saecExceeded => cases move <;> contradiction
  | acceptance => cases move <;> contradiction

/-- An accepted call takes no further step. -/
theorem HasReserved.advance (hcall : race.HasReserved i call)
    (hstep : advance race.cap race.payload i s call move = some (s', call')) :
    race.HasReserved i call' := by
  cases hcall with
  | acceptance => cases move <;> contradiction

/-- What both calls have taken from the account. -/
structure Taken (race : Race) (s : Accounts) (call other : Call) : Prop where
  balance : s.balances race.account = (race.accounts.balances race.account).map fun balance =>
    balance - (call.debited race.account + other.debited race.account)
  exposure : s.exposure race.account = race.accounts.exposure race.account +
    (call.reserved race.account + other.reserved race.account)
  covered : ∀ balance, race.accounts.balances race.account = some balance →
    0 < call.debited race.account + other.debited race.account →
    call.debited race.account + other.debited race.account ≤ balance

/-- What a call that holds nothing sees of the balance. -/
theorem Taken.observed (htaken : Taken race s call other) (hholds : call.debited race.account = 0)
    (hother : race.Standing (!i) call other) {current : Int}
    (hcurrent : s.balances race.account = some current) : race.Observed i other current := by
  rw [htaken.balance, hholds, Option.map_eq_some_iff] at hcurrent
  obtain ⟨balance, hbalance, rfl⟩ := hcurrent
  refine ⟨balance, hbalance, ?_⟩
  rcases hother.debited with hzero | ⟨hdebited, hstake⟩
  · exact Or.inl (by omega)
  · exact Or.inr ⟨hdebited, by omega⟩

/-- An observed balance that covers the stake means the balance of the start does. -/
theorem Observed.covered {current : Int} (hseen : race.Observed i other current)
    (hcurrent : race.stake i ≤ current) : race.Covered i := by
  obtain ⟨balance, hbalance, rfl | ⟨-, rfl⟩⟩ := hseen
  · exact ⟨current, hbalance, hcurrent⟩
  · have := race.stake_pos !i
    exact ⟨balance, hbalance, by omega⟩

/-- What a call that holds its stake sees when its payout does not fit. -/
theorem Taken.crowded (htaken : Taken race s call other)
    (hholds : call.debited race.account = race.stake i) (hreserved : call.reserved race.account = 0)
    (hother : race.Standing (!i) call other) (hcovered : race.Covered i)
    (hfull : race.cap < s.exposure race.account + race.payout i) : race.Crowded i other := by
  rw [htaken.exposure, hreserved] at hfull
  rcases hother.reserved with hzero | ⟨haccepted, hpayout, hstake⟩
  · exact Or.inl (by omega)
  · obtain ⟨balance, hbalance, -⟩ := hcovered
    have hpos := race.stake_pos i
    have hpos' := race.stake_pos !i
    have hboth := htaken.covered balance hbalance (by omega)
    exact Or.inr ⟨haccepted, by omega, balance, hbalance, by omega⟩

/-- The check of the payload rejects a stale quote or lets the call look for its account. -/
theorem Standing.of_idle (hclock : ∀ time, move = .start time → time = race.now)
    (hstep : advance race.cap race.payload i s .idle move = some (s', call')) :
    race.Standing i other call' := by
  cases move with
  | start time =>
      obtain rfl := hclock time rfl
      simp only [RiskEngine.advance] at hstep
      by_cases hfresh : race.Fresh i
      · rw [checkPayload_eq_ok_iff.mpr ⟨race.parsed i, hfresh⟩] at hstep
        obtain ⟨-, rfl⟩ := Prod.mk.inj (Option.some.inj hstep)
        exact .find hfresh
      · have hcheck : checkPayload race.now (race.payload i) =
            .error (.staleQuote (race.bet i) race.now) := by
          simp [checkPayload, race.parsed i, not_le.mp hfresh]
        rw [hcheck] at hstep
        obtain ⟨-, rfl⟩ := Prod.mk.inj (Option.some.inj hstep)
        exact .staleQuote hfresh
  | atomic => contradiction
  | spurious => contradiction

/-- An account that is not found now was not there at the start. -/
theorem Standing.of_find (hfresh : race.Fresh i)
    (htaken : Taken race s (.find (race.bet i) race.now) other)
    (hstep : advance race.cap race.payload i s (.find (race.bet i) race.now) move =
      some (s', call')) :
    race.Standing i other call' := by
  have hown := race.own i
  cases move with
  | atomic =>
      simp only [RiskEngine.advance, hown] at hstep
      split at hstep
      · rename_i hnone
        obtain ⟨-, rfl⟩ := Prod.mk.inj (Option.some.inj hstep)
        rw [htaken.balance, Option.map_eq_none_iff] at hnone
        exact .accountNotFound hfresh hnone
      · obtain ⟨-, rfl⟩ := Prod.mk.inj (Option.some.inj hstep)
        exact .load hfresh
  | start time => contradiction
  | spurious => contradiction

/-- The loaded balance is one the call can observe. -/
theorem Standing.of_load (hfresh : race.Fresh i)
    (htaken : Taken race s (.load (race.bet i) race.now) other)
    (hother : race.Standing (!i) (.load (race.bet i) race.now) other)
    (hstep : advance race.cap race.payload i s (.load (race.bet i) race.now) move =
      some (s', call')) :
    race.Standing i other call' := by
  have hown := race.own i
  cases move with
  | atomic =>
      simp only [RiskEngine.advance, hown] at hstep
      obtain ⟨current, hcurrent, hnext⟩ := Option.map_eq_some_iff.mp hstep
      obtain ⟨-, rfl⟩ := Prod.mk.inj hnext
      exact .compare hfresh (htaken.observed rfl hother hcurrent)
  | start time => contradiction
  | spurious => contradiction

/-- An exchange debits what the observed balance covers; one that fails, for whatever reason,
observes the balance again. -/
theorem Standing.of_compare {current : Int} (hfresh : race.Fresh i)
    (hseen : race.Observed i other current)
    (htaken : Taken race s (.compare (race.bet i) race.now current) other)
    (hother : race.Standing (!i) (.compare (race.bet i) race.now current) other)
    (hstep : advance race.cap race.payload i s (.compare (race.bet i) race.now current) move =
      some (s', call')) :
    race.Standing i other call' := by
  have hown := race.own i
  cases move with
  | atomic =>
      simp only [RiskEngine.advance, hown] at hstep
      by_cases hshort : current < (race.bet i).stakeCents
      · rw [if_pos hshort] at hstep
        obtain ⟨-, rfl⟩ := Prod.mk.inj (Option.some.inj hstep)
        exact .insufficientFunds hfresh hseen hshort
      · rw [if_neg hshort] at hstep
        obtain ⟨balance, hbalance, hnext⟩ := Option.map_eq_some_iff.mp hstep
        split at hnext
        · obtain ⟨-, rfl⟩ := Prod.mk.inj hnext
          exact .reserve hfresh (hseen.covered (not_lt.mp hshort))
        · obtain ⟨-, rfl⟩ := Prod.mk.inj hnext
          exact .compare hfresh (htaken.observed rfl hother hbalance)
  | spurious =>
      simp only [RiskEngine.advance, hown] at hstep
      split at hstep
      · contradiction
      · obtain ⟨balance, hbalance, hnext⟩ := Option.map_eq_some_iff.mp hstep
        obtain ⟨-, rfl⟩ := Prod.mk.inj hnext
        exact .compare hfresh (htaken.observed rfl hother hbalance)
  | start time => contradiction

/-- A payout that does not fit crowds the account; one that fits now fitted at the start. -/
theorem Standing.of_reserve {remaining : Int} (hfresh : race.Fresh i) (hcovered : race.Covered i)
    (htaken : Taken race s (.reserve (race.bet i) race.now remaining) other)
    (hother : race.Standing (!i) (.reserve (race.bet i) race.now remaining) other)
    (hstep : advance race.cap race.payload i s (.reserve (race.bet i) race.now remaining) move =
      some (s', call')) :
    race.Standing i other call' := by
  have hown := race.own i
  cases move with
  | atomic =>
      simp only [RiskEngine.advance, hown, tryReserveExposure] at hstep
      by_cases hfull : s.exposure race.account > race.cap - (race.bet i).potentialPayoutCents
      · rw [if_pos hfull] at hstep
        obtain ⟨-, rfl⟩ := Prod.mk.inj (Option.some.inj hstep)
        refine .refund hfresh hcovered
          (htaken.crowded (by simp [Call.debited, hown, stake]) rfl hother hcovered ?_)
        unfold payout
        omega
      · rw [if_neg hfull] at hstep
        obtain ⟨-, rfl⟩ := Prod.mk.inj (Option.some.inj hstep)
        refine .acceptance hfresh hcovered ?_
        have hpos := race.payout_pos !i
        have hopen := htaken.exposure
        have hnone : (Call.reserve (race.bet i) race.now remaining).reserved race.account = 0 :=
          rfl
        rw [hnone] at hopen
        -- What the other call has reserved only makes the exposure larger.
        rcases hother.reserved with hzero | ⟨-, hpayout, -⟩
        · unfold payout
          omega
        · unfold payout at hpayout hpos ⊢
          omega
  | start time => contradiction
  | spurious => contradiction

/-- A refund ends the call with a rejection. -/
theorem Standing.of_refund {remaining : Int} (hfresh : race.Fresh i) (hcovered : race.Covered i)
    (hfull : race.Crowded i other)
    (hstep : advance race.cap race.payload i s (.refund (race.bet i) race.now remaining) move =
      some (s', call')) :
    race.Standing i other call' := by
  cases move with
  | atomic =>
      obtain ⟨-, rfl⟩ := Prod.mk.inj (Option.some.inj hstep)
      exact .saecExceeded hfresh hcovered hfull
  | start time => contradiction
  | spurious => contradiction

/-- A step keeps the moving call where it can stand. -/
theorem Standing.advance (hcall : race.Standing i other call)
    (hother : race.Standing (!i) call other) (htaken : Taken race s call other)
    (hclock : ∀ time, move = .start time → time = race.now)
    (hstep : advance race.cap race.payload i s call move = some (s', call')) :
    race.Standing i other call' := by
  cases hcall with
  | idle => exact .of_idle hclock hstep
  | find hfresh => exact .of_find hfresh htaken hstep
  | load hfresh => exact .of_load hfresh htaken hother hstep
  | compare hfresh hseen => exact .of_compare hfresh hseen htaken hother hstep
  | reserve hfresh hcovered => exact .of_reserve hfresh hcovered htaken hother hstep
  | refund hfresh hcovered hfull => exact .of_refund hfresh hcovered hfull hstep
  | staleQuote => cases move <;> contradiction
  | accountNotFound => cases move <;> contradiction
  | insufficientFunds => cases move <;> contradiction
  | saecExceeded => cases move <;> contradiction
  | acceptance => cases move <;> contradiction

/-- A step that debits leaves a balance that is not negative. -/
theorem Standing.advance_debit (hcall : race.Standing i other call)
    (hstep : RiskEngine.advance race.cap race.payload i s call move = some (s', call')) :
    call'.debited race.account ≤ call.debited race.account ∨
      ∃ balance, 0 ≤ balance ∧ s'.balances race.account = some balance := by
  have hown := race.own i
  obtain hlocal | ⟨bet, now, current, rfl, hcurrent, -, rfl, rfl⟩ |
    ⟨bet, now, remaining, rfl, -, -, rfl⟩ | ⟨bet, now, remaining, rfl, -, rfl⟩ :=
    advance_cases hstep
  · exact Or.inl (Int.le_of_eq (hlocal.debited race.account))
  · cases hcall
    exact Or.inr ⟨current - (race.bet i).stakeCents, by omega, by
      rw [hown, Accounts.setBalance_balances_self]⟩
  · exact Or.inl (by simp [Call.debited, BetResult.acceptance, BetResult.ofBet])
  · exact Or.inl hcall.debited_nonneg

/-- A step that reserves leaves an exposure within the cap. -/
theorem Standing.advance_reserve (hcall : race.Standing i other call)
    (hstep : RiskEngine.advance race.cap race.payload i s call move = some (s', call')) :
    call'.reserved race.account = call.reserved race.account ∨
      s'.exposure race.account ≤ race.cap := by
  have hown := race.own i
  obtain hlocal | ⟨bet, now, current, rfl, -, -, -, rfl⟩ |
    ⟨bet, now, remaining, rfl, hfits, rfl, -⟩ | ⟨bet, now, remaining, rfl, -, rfl⟩ :=
    advance_cases hstep
  · exact Or.inl (hlocal.reserved race.account)
  · exact Or.inl rfl
  · cases hcall
    refine Or.inr ?_
    rw [hown] at hfits ⊢
    simpa [Accounts.setExposure] using hfits
  · exact Or.inl (by simp [Call.reserved, BetResult.saecExceeded, BetResult.ofBet])

end Step

/-! ## Whole interleavings -/

/-- What holds of the two calls in every state an interleaving reaches. -/
structure Contest (race : Race) (s : Threads Bool) : Prop where
  standing : ∀ i, race.Standing i (s.calls !i) (s.calls i)
  balance : ∀ account, s.shared.balances account = (race.accounts.balances account).map
    fun balance => balance - ∑ i, (s.calls i).debited account
  exposure : ∀ account, s.shared.exposure account =
    race.accounts.exposure account + ∑ i, (s.calls i).reserved account
  covered : ∀ balance, race.accounts.balances race.account = some balance →
    0 < ∑ i, (s.calls i).debited race.account → ∑ i, (s.calls i).debited race.account ≤ balance
  capped : 0 < ∑ i, (s.calls i).reserved race.account →
    race.accounts.exposure race.account + ∑ i, (s.calls i).reserved race.account ≤ race.cap

section Contest

variable {s t : Threads Bool}

/-- The race starts with both calls idle. -/
theorem contest_start : Contest race race.start where
  standing := fun _ => .idle
  balance := fun account => by simp [start, Call.debited]
  exposure := fun account => by simp [start, Call.reserved]
  covered := fun balance _ hpos => by simp [start, Call.debited] at hpos
  capped := fun hpos => by simp [start, Call.reserved] at hpos

/-- What both calls have taken, from the side of one of them. -/
theorem Contest.taken (hs : Contest race s) (i : Bool) :
    Taken race s.shared (s.calls i) (s.calls !i) where
  balance := by
    rw [hs.balance, sum_calls (fun j => (s.calls j).debited race.account) i]
  exposure := by
    rw [hs.exposure, sum_calls (fun j => (s.calls j).reserved race.account) i]
  covered := by
    rw [← sum_calls (fun j => (s.calls j).debited race.account) i]
    exact hs.covered

/-- A refund brings no balance out of the range of its cell. -/
theorem Contest.room (hs : Contest race s) (i : Bool) (account : Bytes) (balance : Int)
    (hbalance : s.shared.balances account = some balance) :
    IsInt64 (balance + (s.calls i).debited account) := by
  rw [hs.balance, Option.map_eq_some_iff] at hbalance
  obtain ⟨seed, hseed, rfl⟩ := hbalance
  obtain ⟨hlow, hhigh⟩ := race.fits.balances hseed
  rw [sum_calls (fun j => (s.calls j).debited account) i]
  by_cases hown : race.account = account
  · subst hown
    have hcovered := (hs.taken i).covered seed hseed
    have hheld := (hs.standing i).debited_nonneg
    have hother := (hs.standing !i).debited_nonneg
    constructor <;> omega
  · rw [(hs.standing i).debited_of_ne hown, (hs.standing !i).debited_of_ne hown]
    constructor <;> omega

/-- After a step both calls stand where they can, each seen from the other. -/
theorem Contest.standing_advance (hs : Contest race s) {accounts : Accounts} {call : Call}
    {move : Move} (hclock : ∀ time, move = .start time → time = race.now)
    (hstep : RiskEngine.advance race.cap race.payload i s.shared (s.calls i) move =
      some (accounts, call)) (j : Bool) :
    race.Standing j (Function.update s.calls i call !j) (Function.update s.calls i call j) := by
  have hother : race.Standing (!i) (s.calls i) (s.calls !i) := by
    simpa using hs.standing !i
  by_cases hj : j = i
  · subst hj
    rw [Function.update_self, Function.update_of_ne (by simp)]
    exact (hs.standing j).advance hother (hs.taken j) hclock hstep
  · obtain rfl : j = !i := Bool.eq_not.mpr hj
    rw [Bool.not_not, Function.update_self, Function.update_of_ne hj]
    refine hother.of_other ?_ ?_
    · rw [Bool.not_not]
      exact fun hdebited => hdebited.advance hstep
    · rw [Bool.not_not]
      exact fun hreserved => hreserved.advance hstep

/-- A step of one call preserves the contest. -/
theorem contest_step {label : Bool × Move} (hs : Contest race s) (hclock : race.AtClock s label)
    (hstep : threadStep race.cap race.payload s label = some t) : Contest race t := by
  obtain ⟨i, move⟩ := label
  obtain ⟨accounts, call, hadvance, rfl⟩ := interleave_eq_some_iff.mp hstep
  dsimp only at hadvance ⊢
  have hbalance : ∀ account, accounts.balances account =
      (race.accounts.balances account).map fun balance =>
        balance - ∑ j, (Function.update s.calls i call j).debited account := by
    intro account
    rw [advance_balances (hs.room i) hadvance, hs.balance, Option.map_map,
      sum_update (Call.debited account)]
    congr 1
    funext balance
    simp only [Function.comp_apply]
    omega
  have hexposure : ∀ account, accounts.exposure account = race.accounts.exposure account +
      ∑ j, (Function.update s.calls i call j).reserved account := by
    intro account
    rw [advance_exposure hadvance, hs.exposure, sum_update (Call.reserved account)]
    omega
  refine ⟨hs.standing_advance hclock hadvance, hbalance, hexposure, ?_, ?_⟩
  · intro balance hseed hpos
    have hold := hs.covered balance hseed
    have hnew := hbalance race.account
    rw [hseed, Option.map_some] at hnew
    rw [sum_update (Call.debited race.account)] at hpos hnew ⊢
    rcases (hs.standing i).advance_debit hadvance with hless | ⟨rest, hrest, hleft⟩
    · omega
    · rw [hleft, Option.some.injEq] at hnew
      omega
  · intro hpos
    have hold := hs.capped
    have hnew := hexposure race.account
    rw [sum_update (Call.reserved race.account)] at hpos hnew ⊢
    rcases (hs.standing i).advance_reserve hadvance with hsame | hroom
    · omega
    · omega

/-- In every state an interleaving reaches, the contest holds. -/
theorem contest_of_reached (hrun : race.Reached t) : Contest race t :=
  Reaches.invariant hrun contest_start fun hs hclock hstep => contest_step hs hclock hstep

end Contest

end Race
end RiskEngine
end BettingPlatform
