import BettingPlatform.RiskEngine.PairRaces

/-!
# The orders of two racing evaluations

Two evaluations that raced are compared with the same two bets evaluated one after the
other.  What a bet is decided depends on the balance and the exposure it meets, and the
accounts on what was accepted, so it is enough to compare the reason codes.

Main results:

- Theorem `Race.sequential_spec`: what the two bets are decided one after the other.
- Theorem `race_sequential_iff`: the two calls agree with one of the two orders, unless
  one of them was refused for a stake the other held and gave back.
-/

namespace BettingPlatform
namespace RiskEngine

open Runs

/-- The reason code of an accepted bet. -/
def ReasonCode.accepts : ReasonCode → Bool
  | .accepted => true
  | _ => false

namespace Race

variable [FieldOrder] {race : Race} {i : Bool} {other call : Call}

/-! ## One call after the other -/

/-- What a bet is decided when its account has this balance and this exposure. -/
def verdict (race : Race) (i : Bool) (balance : Option Int) (exposure : Int) : ReasonCode :=
  if ¬ race.Fresh i then .staleQuote
  else
    match balance with
    | none => .accountNotFound
    | some balance =>
        if balance < race.stake i then .insufficientFunds
        else if race.cap < exposure + race.payout i then .saecExceeded
        else .accepted

section Verdict

variable {balance exposure : Int}

theorem verdict_staleQuote (hstale : ¬ race.Fresh i) (balance : Option Int) (exposure : Int) :
    race.verdict i balance exposure = .staleQuote :=
  if_pos hstale

theorem verdict_accountNotFound (hfresh : race.Fresh i) (exposure : Int) :
    race.verdict i none exposure = .accountNotFound :=
  if_neg (not_not.mpr hfresh)

theorem verdict_insufficientFunds (hfresh : race.Fresh i) (hshort : balance < race.stake i) :
    race.verdict i (some balance) exposure = .insufficientFunds := by
  unfold verdict
  rw [if_neg (not_not.mpr hfresh)]
  exact if_pos hshort

theorem verdict_saecExceeded (hfresh : race.Fresh i) (hcovered : race.stake i ≤ balance)
    (hfull : race.cap < exposure + race.payout i) :
    race.verdict i (some balance) exposure = .saecExceeded := by
  unfold verdict
  rw [if_neg (not_not.mpr hfresh)]
  exact (if_neg (not_lt.mpr hcovered)).trans (if_pos hfull)

theorem verdict_accepted (hfresh : race.Fresh i) (hcovered : race.stake i ≤ balance)
    (hroom : exposure + race.payout i ≤ race.cap) :
    race.verdict i (some balance) exposure = .accepted := by
  unfold verdict
  rw [if_neg (not_not.mpr hfresh)]
  exact (if_neg (not_lt.mpr hcovered)).trans (if_neg (not_lt.mpr hroom))

end Verdict

/-- The results and the accounts when bet `first` is evaluated before the other. -/
def sequential (race : Race) (first : Bool) : (Bool → BetResult) × Accounts :=
  let earlier := evaluateJson race.cap race.accounts race.now (race.payload first)
  let later := evaluateJson race.cap earlier.2 race.now (race.payload !first)
  (fun i => if i = first then earlier.1 else later.1, later.2)

/-- The accounts once a bet's decision has been applied to them. -/
def charged (race : Race) (i accepted : Bool) (s : Accounts) : Accounts where
  balances := fun account => (s.balances account).map fun balance =>
    balance - if accepted ∧ race.account = account then race.stake i else 0
  exposure := fun account => s.exposure account +
    if accepted ∧ race.account = account then race.payout i else 0

theorem charged_false (s : Accounts) : race.charged i false s = s := by
  simp [charged]

/-- An accepted bet takes the stake and reserves the payout. -/
theorem charged_true {s : Accounts} {balance : Int}
    (hbalance : s.balances race.account = some balance) :
    race.charged i true s = (s.setBalance race.account (balance - race.stake i)).setExposure
      race.account (s.exposure race.account + race.payout i) := by
  unfold charged Accounts.setBalance Accounts.setExposure
  congr 1
  · funext account
    by_cases hown : race.account = account
    · subst hown
      simp [hbalance]
    · simp [hown, Function.update_of_ne (Ne.symm hown)]
  · funext account
    by_cases hown : race.account = account
    · subst hown
      simp
    · simp [hown, Function.update_of_ne (Ne.symm hown)]

/-- What a call that runs alone decides, and what it does to the accounts. -/
theorem evaluateJson_verdict (race : Race) (i : Bool) {s : Accounts}
    (hfits : ∀ balance, s.balances race.account = some balance → IsInt64 balance) :
    (evaluateJson race.cap s race.now (race.payload i)).1.reasonCode =
        race.verdict i (s.balances race.account) (s.exposure race.account) ∧
      (evaluateJson race.cap s race.now (race.payload i)).2 = race.charged i
        (evaluateJson race.cap s race.now (race.payload i)).1.accepted s := by
  have hown := race.own i
  have hevaluated := @evaluated_evaluateJson _ race.cap race.now s _ _ (race.parsed i)
  generalize evaluateJson race.cap s race.now (race.payload i) = decision at hevaluated
  cases hevaluated with
  | staleQuote hstale =>
      exact ⟨(verdict_staleQuote (not_le.mpr hstale) _ _).symm, (charged_false s).symm⟩
  | accountNotFound hfresh hnone =>
      rw [hown] at hnone
      rw [hnone]
      exact ⟨(verdict_accountNotFound hfresh _).symm, (charged_false s).symm⟩
  | insufficientFunds hfresh hbalance hshort =>
      rw [hown] at hbalance
      rw [hbalance]
      exact ⟨(verdict_insufficientFunds hfresh hshort).symm, (charged_false s).symm⟩
  | @saecExceeded balance hfresh hbalance hcovered hfull =>
      rw [hown] at hbalance hfull
      rw [fetchAdd_refund (hfits balance hbalance), hown, Accounts.setBalance_self hbalance,
        hbalance]
      exact ⟨(verdict_saecExceeded hfresh hcovered hfull).symm, (charged_false s).symm⟩
  | acceptance hfresh hbalance hcovered hroom =>
      rw [hown] at hbalance hroom ⊢
      rw [hbalance]
      exact ⟨(verdict_accepted hfresh hcovered hroom).symm, (charged_true hbalance).symm⟩

/-! ## The decisions of a finished race -/

/-- The reason codes of a call that has debited its stake. -/
def Debits (code : ReasonCode) : Prop :=
  code = .accepted ∨ code = .saecExceeded

/-- What the reason code of a returned call says, given that of the other. -/
inductive Outcome (race : Race) (i : Bool) (other : ReasonCode) : ReasonCode → Prop
  | staleQuote : ¬ race.Fresh i → Outcome race i other .staleQuote
  | accountNotFound : race.Fresh i → race.accounts.balances race.account = none →
      Outcome race i other .accountNotFound
  | insufficientFunds {balance : Int} : race.Fresh i →
      race.accounts.balances race.account = some balance →
      (balance < race.stake i ∨ Debits other ∧ balance < race.stake i + race.stake !i) →
      Outcome race i other .insufficientFunds
  | saecExceeded {balance : Int} : race.Fresh i →
      race.accounts.balances race.account = some balance → race.stake i ≤ balance →
      (race.cap < race.accounts.exposure race.account + race.payout i ∨
        other = .accepted ∧ race.stake i + race.stake (!i) ≤ balance ∧
          race.cap < race.accounts.exposure race.account + (race.payout i + race.payout !i)) →
      Outcome race i other .saecExceeded
  | accepted {balance : Int} : race.Fresh i →
      race.accounts.balances race.account = some balance → race.stake i ≤ balance →
      race.accounts.exposure race.account + race.payout i ≤ race.cap →
      (other = .accepted → race.stake i + race.stake (!i) ≤ balance ∧
        race.accounts.exposure race.account + (race.payout i + race.payout !i) ≤ race.cap) →
      Outcome race i other .accepted

/-- A call that has debited ends accepted or over the cap. -/
theorem HasDebited.code (hcall : race.HasDebited i call) {result : BetResult}
    (hresult : call.result? = some result) : Debits result.reasonCode := by
  cases hcall with
  | reserve => contradiction
  | refund => contradiction
  | saecExceeded =>
      obtain rfl := Option.some.inj hresult
      exact Or.inr rfl
  | acceptance =>
      obtain rfl := Option.some.inj hresult
      exact Or.inl rfl

/-- A call that has reserved ends accepted. -/
theorem HasReserved.code (hcall : race.HasReserved i call) {result : BetResult}
    (hresult : call.result? = some result) : result.reasonCode = .accepted := by
  cases hcall
  obtain rfl := Option.some.inj hresult
  rfl

/-- Only an ACCEPTED result keeps what the call has taken, and it keeps all of it. -/
theorem Standing.returned (hcall : race.Standing i other call) {result : BetResult}
    (hresult : call.result? = some result) :
    result.accepted = result.reasonCode.accepts ∧
      ∀ account, call.debited account =
          (if result.accepted ∧ race.account = account then race.stake i else 0) ∧
        call.reserved account =
          if result.accepted ∧ race.account = account then race.payout i else 0 := by
  have hown := race.own i
  cases hcall <;> first | contradiction | obtain rfl := Option.some.inj hresult
  all_goals
    refine ⟨rfl, fun account => ?_⟩
    simp [Call.debited, Call.reserved, hown, stake, payout, BetResult.staleQuote,
      BetResult.accountNotFound, BetResult.insufficientFunds, BetResult.saecExceeded,
      BetResult.acceptance, BetResult.ofBet]

section Finished

variable {t : Threads Bool} {results : Bool → BetResult}

/-- The reason codes of a finished race. -/
theorem Contest.outcome (ht : Contest race t)
    (hresults : ∀ i, (t.calls i).result? = some (results i)) (i : Bool) :
    Outcome race i (results !i).reasonCode (results i).reasonCode := by
  have hother := hresults !i
  have hresult := hresults i
  have hstanding := ht.standing i
  have htaken := ht.taken i
  have hcapped := ht.capped
  rw [sum_calls (fun j => (t.calls j).reserved race.account) i] at hcapped
  obtain ⟨hflag, hown⟩ := hstanding.returned hresult
  obtain ⟨hflag', hown'⟩ := (ht.standing !i).returned hother
  generalize t.calls i = call at hstanding hresult htaken hown hcapped
  cases hstanding <;> first | contradiction | obtain hvalue := Option.some.inj hresult
  case staleQuote hstale =>
    rw [← hvalue]
    exact .staleQuote hstale
  case accountNotFound hfresh hnone =>
    rw [← hvalue]
    exact .accountNotFound hfresh hnone
  case insufficientFunds current hfresh hseen hshort =>
    rw [← hvalue]
    obtain ⟨balance, hbalance, rfl | ⟨hdebited, rfl⟩⟩ := hseen
    · exact .insufficientFunds hfresh hbalance (Or.inl hshort)
    · exact .insufficientFunds hfresh hbalance (Or.inr ⟨hdebited.code hother, by omega⟩)
  case saecExceeded remaining hfresh hcovered hcrowded =>
    rw [← hvalue]
    obtain ⟨balance, hbalance, hstake⟩ := hcovered
    rcases hcrowded with hfull | ⟨hreserved, hfull, balance', hbalance', hboth⟩
    · exact .saecExceeded hfresh hbalance hstake (Or.inl hfull)
    · obtain rfl := Option.some.inj (hbalance.symm.trans hbalance')
      exact .saecExceeded hfresh hbalance hstake (Or.inr ⟨hreserved.code hother, hboth, hfull⟩)
  case acceptance exposure remaining hfresh hcovered hroom =>
    obtain ⟨balance, hbalance, hstake⟩ := hcovered
    have haccepted : (results i).accepted = true := by
      rw [← hvalue]
      rfl
    have hcode : (results i).reasonCode = .accepted := by
      rw [← hvalue]
      rfl
    rw [hcode]
    refine .accepted hfresh hbalance hstake hroom fun hboth => ?_
    rw [hboth, ReasonCode.accepts] at hflag'
    have hdebited := (hown race.account).1
    have hreserved := (hown race.account).2
    have hdebited' := (hown' race.account).1
    have hreserved' := (hown' race.account).2
    rw [if_pos ⟨haccepted, rfl⟩] at hdebited hreserved
    rw [if_pos ⟨hflag', rfl⟩] at hdebited' hreserved'
    have hcovered := htaken.covered balance hbalance
    have hpos := race.stake_pos i
    have hpos' := race.stake_pos !i
    have hpayout := race.payout_pos i
    have hpayout' := race.payout_pos !i
    rw [hdebited, hdebited'] at hcovered
    rw [hreserved, hreserved'] at hcapped
    exact ⟨hcovered (by omega), hcapped (by omega)⟩

/-- The accounts of a finished race are charged what the results accepted. -/
theorem Contest.accounts (ht : Contest race t)
    (hresults : ∀ i, (t.calls i).result? = some (results i)) (i : Bool) :
    t.shared = race.charged (!i) (results !i).accepted
      (race.charged i (results i).accepted race.accounts) := by
  have hown := ((ht.standing i).returned (hresults i)).2
  have hother := ((ht.standing !i).returned (hresults !i)).2
  have hbalances : t.shared.balances = (race.charged (!i) (results !i).accepted
      (race.charged i (results i).accepted race.accounts)).balances := by
    funext account
    rw [ht.balance, sum_calls (fun j => (t.calls j).debited account) i, (hown account).1,
      (hother account).1]
    simp only [charged, Option.map_map]
    congr 1
    funext balance
    simp only [Function.comp_apply]
    omega
  have hexposure : t.shared.exposure = (race.charged (!i) (results !i).accepted
      (race.charged i (results i).accepted race.accounts)).exposure := by
    funext account
    rw [ht.exposure, sum_calls (fun j => (t.calls j).reserved account) i, (hown account).2,
      (hother account).2]
    simp only [charged]
    omega
  cases hshared : t.shared
  rw [hshared] at hbalances hexposure
  exact congrArg₂ Accounts.mk hbalances hexposure

end Finished

/-! ## The orders of the two bets -/

/-- The two calls decided, and left the accounts, as when bet `first` comes first. -/
def AgreesInOrder (race : Race) (first : Bool) (results : Bool → BetResult)
    (accounts : Accounts) : Prop :=
  (∀ i, (results i).accepted = ((race.sequential first).1 i).accepted ∧
      (results i).reasonCode = ((race.sequential first).1 i).reasonCode) ∧
    accounts = (race.sequential first).2

/-- Bet `i` was refused for its exposure after it had been debited, and the other bet
for the balance without that debit, although the account covers either stake; nothing
is left changed. -/
structure HiddenFunds (race : Race) (i : Bool) (results : Bool → BetResult)
    (accounts : Accounts) : Prop where
  exceeded : (results i).reasonCode = .saecExceeded
  refused : (results !i).reasonCode = .insufficientFunds
  rejected : ∀ j, (results j).accepted = false
  unchanged : accounts = race.accounts
  full : race.cap < race.accounts.exposure race.account + race.payout i
  funds : ∃ balance, race.accounts.balances race.account = some balance ∧
    (∀ j, race.stake j ≤ balance) ∧ balance < race.stake i + race.stake !i

/-- The reason codes of the two bets when `first` comes first. -/
def CodesInOrder (race : Race) (first : Bool) (codes : Bool → ReasonCode) : Prop :=
  let charged := race.charged first (codes first).accepts race.accounts
  codes first = race.verdict first (race.accounts.balances race.account)
      (race.accounts.exposure race.account) ∧
    codes (!first) = race.verdict (!first) (charged.balances race.account)
      (charged.exposure race.account)

/-- The result is accepted when its code says so. -/
theorem evaluateJson_accepted_iff (race : Race) (s : Accounts) (i : Bool) :
    (evaluateJson race.cap s race.now (race.payload i)).1.accepted =
      (evaluateJson race.cap s race.now (race.payload i)).1.reasonCode.accepts := by
  have hevaluated := @evaluated_evaluateJson _ race.cap race.now s _ _ (race.parsed i)
  generalize evaluateJson race.cap s race.now (race.payload i) = decision at hevaluated
  cases hevaluated <;> rfl

/-- A 64-bit balance that is charged what it covers is a 64-bit balance. -/
theorem charged_fits (i : Bool) {balance : Int}
    (hbalance : (race.charged i (race.verdict i (race.accounts.balances race.account)
      (race.accounts.exposure race.account)).accepts race.accounts).balances race.account =
        some balance) : IsInt64 balance := by
  simp only [charged] at hbalance
  obtain ⟨seed, hseed, rfl⟩ := Option.map_eq_some_iff.mp hbalance
  obtain ⟨hlow, hhigh⟩ := race.fits.balances hseed
  split
  · rename_i haccepted
    have hverdict := haccepted.1
    have hpos := race.stake_pos i
    by_cases hshort : seed < race.stake i
    · by_cases hfresh : race.Fresh i
      · rw [hseed, verdict_insufficientFunds hfresh hshort] at hverdict
        contradiction
      · rw [verdict_staleQuote hfresh] at hverdict
        contradiction
    · constructor <;> omega
  · rw [Int.sub_zero]
    exact ⟨hlow, hhigh⟩

/-- The two bets one after the other: their reason codes, their flags and the accounts. -/
theorem sequential_spec (race : Race) (first : Bool) :
    race.CodesInOrder first (fun i => ((race.sequential first).1 i).reasonCode) ∧
      (∀ i, ((race.sequential first).1 i).accepted =
        ((race.sequential first).1 i).reasonCode.accepts) ∧
      (race.sequential first).2 = race.charged (!first) ((race.sequential first).1 !first).accepted
        (race.charged first ((race.sequential first).1 first).accepted race.accounts) := by
  obtain ⟨hcode, hcharged⟩ := race.evaluateJson_verdict first
    (fun _ hbalance => race.fits.balances hbalance)
  have hflag := race.evaluateJson_accepted_iff race.accounts first
  rw [hflag, hcode] at hcharged
  obtain ⟨hcode', hcharged'⟩ := race.evaluateJson_verdict (!first)
    (fun _ hbalance => charged_fits first hbalance)
  have hflag' := race.evaluateJson_accepted_iff
    (race.charged first (race.verdict first (race.accounts.balances race.account)
      (race.accounts.exposure race.account)).accepts race.accounts) !first
  have hne : (!first) ≠ first := by simp
  unfold sequential CodesInOrder
  simp only [hcharged, if_true, if_neg hne]
  refine ⟨⟨hcode, ?_⟩, ?_, ?_⟩
  · rw [hcode', hcode]
  · intro i
    by_cases hi : i = first
    · rw [if_pos hi, hflag]
    · rw [if_neg hi, hflag']
  · rw [hcharged', hflag, hcode]

/-- An order of the calls fixes both codes. -/
theorem CodesInOrder.unique {first : Bool} {codes codes' : Bool → ReasonCode}
    (h : race.CodesInOrder first codes) (h' : race.CodesInOrder first codes') (i : Bool) :
    codes i = codes' i := by
  have hfirst : codes first = codes' first := h.1.trans h'.1.symm
  have hlater := h.2
  rw [hfirst] at hlater
  by_cases hi : i = first
  · exact hi ▸ hfirst
  · exact Bool.eq_not.mpr hi ▸ hlater.trans h'.2.symm

/-- The reason codes decide everything else: the flags and the accounts. -/
theorem agreesInOrder_iff_codes {first : Bool} {results : Bool → BetResult} {accounts : Accounts}
    (hflags : ∀ i, (results i).accepted = (results i).reasonCode.accepts)
    (haccounts : accounts = race.charged (!first) (results !first).accepted
      (race.charged first (results first).accepted race.accounts)) :
    race.AgreesInOrder first results accounts ↔
      race.CodesInOrder first fun i => (results i).reasonCode := by
  obtain ⟨hcodes, hflags', haccounts'⟩ := race.sequential_spec first
  constructor
  · rintro ⟨hagree, -⟩
    have hsame : (fun i => (results i).reasonCode) =
        fun i => ((race.sequential first).1 i).reasonCode :=
      funext fun i => (hagree i).2
    exact hsame ▸ hcodes
  · intro hown
    have hcode := hown.unique hcodes
    have hflag : ∀ i, (results i).accepted = ((race.sequential first).1 i).accepted := by
      intro i
      rw [hflags, hflags']
      exact congrArg ReasonCode.accepts (hcode i)
    refine ⟨fun i => ⟨hflag i, hcode i⟩, ?_⟩
    rw [haccounts, haccounts', hflag, hflag]

/-- The stakes hide each other: the account covers either and not both. -/
def EitherNotBoth (race : Race) : Prop :=
  ∃ balance, race.accounts.balances race.account = some balance ∧
    (∀ j, race.stake j ≤ balance) ∧ balance < race.stake false + race.stake true

section Codes

variable {codes : Bool → ReasonCode}

/-- A bet whose rival debited nothing is decided as if it came first. -/
theorem Outcome.first {code other : ReasonCode} (h : Outcome race i other code)
    (hquiet : ¬ Debits other) :
    code = race.verdict i (race.accounts.balances race.account)
      (race.accounts.exposure race.account) := by
  cases h with
  | staleQuote hstale => exact (verdict_staleQuote hstale _ _).symm
  | accountNotFound hfresh hnone =>
      rw [hnone]
      exact (verdict_accountNotFound hfresh _).symm
  | insufficientFunds hfresh hbalance hseen =>
      rw [hbalance]
      rcases hseen with hshort | ⟨hdebits, -⟩
      · exact (verdict_insufficientFunds hfresh hshort).symm
      · exact absurd hdebits hquiet
  | saecExceeded hfresh hbalance hcovered hcrowded =>
      rw [hbalance]
      rcases hcrowded with hfull | ⟨haccepted, -⟩
      · exact (verdict_saecExceeded hfresh hcovered hfull).symm
      · exact absurd (Or.inl haccepted) hquiet
  | accepted hfresh hbalance hcovered hroom =>
      rw [hbalance]
      exact (verdict_accepted hfresh hcovered hroom).symm

/-- The balance after an order's first call. -/
theorem charged_balance {s : Accounts} {balance : Int}
    (hbalance : s.balances race.account = some balance) (i accepted : Bool) :
    (race.charged i accepted s).balances race.account =
      some (balance - if accepted then race.stake i else 0) := by
  simp [charged, hbalance]

/-- And the exposure. -/
theorem charged_exposure (s : Accounts) (i accepted : Bool) :
    (race.charged i accepted s).exposure race.account =
      s.exposure race.account + if accepted then race.payout i else 0 := by
  simp [charged]

/-- A rival that debited nothing comes second, unless the bet that is given back hid
the balance from it. -/
theorem codesInOrder_of_quiet (hi : Outcome race i (codes !i) (codes i))
    (hother : Outcome race (!i) (codes i) (codes !i)) (hquiet : ¬ Debits (codes !i))
    (hhidden : ¬ (codes i = .saecExceeded ∧ codes (!i) = .insufficientFunds ∧
      race.EitherNotBoth)) :
    race.CodesInOrder i codes := by
  have hfirst := hi.first hquiet
  refine ⟨hfirst, ?_⟩
  rw [charged_exposure]
  generalize hcode : codes i = code at hi hother hhidden hfirst ⊢
  generalize codes (!i) = other at hi hother hquiet hhidden ⊢
  cases hother with
  | staleQuote hstale => exact (verdict_staleQuote hstale _ _).symm
  | accountNotFound hfresh hnone =>
      simp only [charged, hnone, Option.map_none]
      exact (verdict_accountNotFound hfresh _).symm
  | @insufficientFunds balance hfresh hbalance hseen =>
      rw [charged_balance hbalance]
      refine (verdict_insufficientFunds hfresh ?_).symm
      have hpos := race.stake_pos i
      cases hi with
      | accepted =>
          simp only [ReasonCode.accepts, if_true]
          rw [Bool.not_not] at hseen
          omega
      | @saecExceeded balance' _ hbalance' hcovered =>
          obtain rfl := Option.some.inj (hbalance.symm.trans hbalance')
          simp only [ReasonCode.accepts, Bool.false_eq_true, if_false, Int.sub_zero]
          by_contra hnot
          rw [Bool.not_not] at hseen
          refine hhidden ⟨rfl, rfl, balance, hbalance, ?_, ?_⟩
          · intro j
            by_cases hj : j = i
            · exact hj ▸ hcovered
            · exact (Bool.eq_not.mpr hj) ▸ not_lt.mp hnot
          · cases i <;> simp only [Bool.not_false, Bool.not_true] at hseen hnot <;> omega
      | staleQuote =>
          rcases hseen with hshort | ⟨haccepted | hexceeded, -⟩
          · simpa [ReasonCode.accepts] using hshort
          · contradiction
          · contradiction
      | accountNotFound _ hnone =>
          rw [hbalance] at hnone
          contradiction
      | insufficientFunds =>
          rcases hseen with hshort | ⟨haccepted | hexceeded, -⟩
          · simpa [ReasonCode.accepts] using hshort
          · contradiction
          · contradiction
  | saecExceeded => exact absurd (Or.inr rfl) hquiet
  | accepted => exact absurd (Or.inl rfl) hquiet

/-- What an accepted bet says. -/
theorem Outcome.of_accepted {other : ReasonCode} (h : Outcome race i other .accepted) :
    ∃ balance, race.Fresh i ∧ race.accounts.balances race.account = some balance ∧
      race.stake i ≤ balance ∧
      race.accounts.exposure race.account + race.payout i ≤ race.cap ∧
      (other = .accepted → race.stake i + race.stake (!i) ≤ balance ∧
        race.accounts.exposure race.account + (race.payout i + race.payout !i) ≤ race.cap) := by
  cases h with
  | @accepted balance hfresh hbalance hcovered hroom hboth =>
      exact ⟨balance, hfresh, hbalance, hcovered, hroom, hboth⟩

/-- What a bet that exceeds the cap says. -/
theorem Outcome.of_saecExceeded {other : ReasonCode} (h : Outcome race i other .saecExceeded) :
    ∃ balance, race.Fresh i ∧ race.accounts.balances race.account = some balance ∧
      race.stake i ≤ balance ∧
      (race.cap < race.accounts.exposure race.account + race.payout i ∨
        other = .accepted ∧ race.stake i + race.stake (!i) ≤ balance ∧
          race.cap < race.accounts.exposure race.account + (race.payout i + race.payout !i)) := by
  cases h with
  | @saecExceeded balance hfresh hbalance hcovered hcrowded =>
      exact ⟨balance, hfresh, hbalance, hcovered, hcrowded⟩

/-- Two accepted bets are accepted in either order. -/
theorem codesInOrder_of_accepted (h : ∀ i, Outcome race i (codes !i) (codes i))
    (haccepted : ∀ i, codes i = .accepted) (first : Bool) : race.CodesInOrder first codes := by
  have hi := h first
  have hother := h !first
  unfold CodesInOrder
  rw [haccepted first, haccepted !first] at hi ⊢
  rw [haccepted !first] at hother
  obtain ⟨balance, hfresh, hbalance, hcovered, hroom, hboth⟩ := hi.of_accepted
  obtain ⟨-, hfresh', -⟩ := hother.of_accepted
  obtain ⟨hstakes, hpayouts⟩ := hboth rfl
  dsimp only
  rw [charged_exposure, charged_balance hbalance, hbalance]
  simp only [ReasonCode.accepts, if_true]
  exact ⟨(verdict_accepted hfresh hcovered hroom).symm,
    (verdict_accepted hfresh' (by omega) (by omega)).symm⟩

/-- Two bets that both exceed the cap exceed it in either order. -/
theorem codesInOrder_of_saecExceeded (h : ∀ i, Outcome race i (codes !i) (codes i))
    (hexceeded : ∀ i, codes i = .saecExceeded) (first : Bool) :
    race.CodesInOrder first codes := by
  have hi := h first
  have hother := h !first
  unfold CodesInOrder
  rw [hexceeded first, hexceeded !first] at hi ⊢
  rw [hexceeded !first, Bool.not_not, hexceeded first] at hother
  obtain ⟨balance, hfresh, hbalance, hcovered, hfull | ⟨hcontra, -⟩⟩ := hi.of_saecExceeded
  · obtain ⟨balance', hfresh', hbalance', hcovered', hfull' | ⟨hcontra, -⟩⟩ :=
      hother.of_saecExceeded
    · obtain rfl := Option.some.inj (hbalance.symm.trans hbalance')
      dsimp only
      rw [charged_exposure, charged_balance hbalance, hbalance]
      simp only [ReasonCode.accepts, Bool.false_eq_true, if_false, Int.sub_zero, Int.add_zero]
      exact ⟨(verdict_saecExceeded hfresh hcovered hfull).symm,
        (verdict_saecExceeded hfresh' hcovered' hfull').symm⟩
    · contradiction
  · contradiction

/-- Of an accepted bet and one that exceeds the cap, the accepted one comes first when the
balance covers both stakes, and second when it had to wait for the other's refund. -/
theorem codesInOrder_of_mixed (h : ∀ i, Outcome race i (codes !i) (codes i))
    (haccepted : codes i = .accepted) (hexceeded : codes (!i) = .saecExceeded) :
    ∃ first, race.CodesInOrder first codes := by
  have hi := h i
  have hother := h !i
  rw [haccepted, hexceeded] at hi
  rw [Bool.not_not, haccepted, hexceeded] at hother
  obtain ⟨balance, hfresh, hbalance, hcovered, hroom, -⟩ := hi.of_accepted
  obtain ⟨balance', hfresh', hbalance', hcovered', hcrowded⟩ := hother.of_saecExceeded
  obtain rfl := Option.some.inj (hbalance.symm.trans hbalance')
  rw [Bool.not_not] at hcrowded
  have hpos := race.payout_pos i
  by_cases hboth : race.stake i + race.stake (!i) ≤ balance
  · refine ⟨i, ?_⟩
    unfold CodesInOrder
    dsimp only
    rw [haccepted, hexceeded, charged_exposure, charged_balance hbalance, hbalance]
    simp only [ReasonCode.accepts, if_true]
    exact ⟨(verdict_accepted hfresh hcovered hroom).symm,
      (verdict_saecExceeded hfresh' (by omega) (by omega)).symm⟩
  · refine ⟨!i, ?_⟩
    unfold CodesInOrder
    dsimp only
    rw [Bool.not_not, haccepted, hexceeded, charged_exposure, charged_balance hbalance, hbalance]
    simp only [ReasonCode.accepts, Bool.false_eq_true, if_false, Int.sub_zero, Int.add_zero]
    exact ⟨(verdict_saecExceeded hfresh' hcovered' (by omega)).symm,
      (verdict_accepted hfresh hcovered hroom).symm⟩

/-- The reason codes are those of one of the two orders, or a hidden balance. -/
theorem codesInOrder_or_hidden (codes : Bool → ReasonCode)
    (h : ∀ i, Outcome race i (codes !i) (codes i)) :
    (∃ first, race.CodesInOrder first codes) ∨
      ∃ i, codes i = .saecExceeded ∧ codes (!i) = .insufficientFunds ∧ race.EitherNotBoth := by
  by_cases hhidden : ∃ i, codes i = .saecExceeded ∧ codes (!i) = .insufficientFunds ∧
      race.EitherNotBoth
  · exact Or.inr hhidden
  · refine Or.inl ?_
    by_cases hquiet : ∃ i, ¬ Debits (codes !i)
    · obtain ⟨i, hother⟩ := hquiet
      have hrival := h !i
      rw [Bool.not_not] at hrival
      exact ⟨i, codesInOrder_of_quiet (h i) hrival hother fun hcodes => hhidden ⟨i, hcodes⟩⟩
    · have hdebits : ∀ i, Debits (codes i) := by
        intro i
        by_contra hother
        exact hquiet ⟨!i, by rwa [Bool.not_not]⟩
      rcases hdebits false with hfalse | hfalse <;> rcases hdebits true with htrue | htrue
      · exact ⟨false, codesInOrder_of_accepted h (Bool.forall_bool.mpr ⟨hfalse, htrue⟩) false⟩
      · exact codesInOrder_of_mixed h hfalse htrue
      · exact codesInOrder_of_mixed h htrue hfalse
      · exact ⟨false, codesInOrder_of_saecExceeded h (Bool.forall_bool.mpr ⟨hfalse, htrue⟩) false⟩

/-- No order refuses a bet for a balance that only the debit of the other hides. -/
theorem not_codesInOrder_of_hidden {first : Bool} (hexceeded : codes i = .saecExceeded)
    (hrefused : codes (!i) = .insufficientFunds) (hfunds : race.EitherNotBoth) :
    ¬ race.CodesInOrder first codes := by
  obtain ⟨balance, hbalance, hcovered, -⟩ := hfunds
  have hverdict : ∀ exposure, race.verdict (!i) (some balance) exposure ≠ .insufficientFunds := by
    intro exposure hshort
    by_cases hfresh : race.Fresh !i
    · by_cases hfull : race.cap < exposure + race.payout !i
      · rw [verdict_saecExceeded hfresh (hcovered _) hfull] at hshort
        contradiction
      · rw [verdict_accepted hfresh (hcovered _) (not_lt.mp hfull)] at hshort
        contradiction
    · rw [verdict_staleQuote hfresh] at hshort
      contradiction
  rintro ⟨hfirst, hlater⟩
  by_cases hi : first = i
  · subst hi
    simp only [hexceeded, ReasonCode.accepts, charged_false, hbalance] at hlater
    exact hverdict _ (hlater.symm.trans hrefused)
  · obtain rfl : first = !i := Bool.eq_not.mpr hi
    rw [hbalance] at hfirst
    exact hverdict _ (hfirst.symm.trans hrefused)

end Codes

end Race

/-- Two racing evaluations decide, and leave the accounts, as in one of the two orders,
unless one of them was given back for its exposure and the other refused for the balance
without it. -/
theorem race_sequential_iff [FieldOrder] {race : Race} {t : Threads Bool}
    {results : Bool → BetResult} (hrun : race.Reached t)
    (hresults : ∀ i, (t.calls i).result? = some (results i)) :
    (∃ first, race.AgreesInOrder first results t.shared) ↔
      ¬ ∃ i, race.HiddenFunds i results t.shared := by
  have ht := Race.contest_of_reached hrun
  have hflags : ∀ i, (results i).accepted = (results i).reasonCode.accepts :=
    fun i => ((ht.standing i).returned (hresults i)).1
  have hagrees : ∀ first, race.AgreesInOrder first results t.shared ↔
      race.CodesInOrder first fun i => (results i).reasonCode :=
    fun first => Race.agreesInOrder_iff_codes hflags (ht.accounts hresults first)
  constructor
  · rintro ⟨first, hagree⟩ ⟨i, hhidden⟩
    have hfunds : race.EitherNotBoth := by
      obtain ⟨balance, hbalance, hcovered, hboth⟩ := hhidden.funds
      refine ⟨balance, hbalance, hcovered, ?_⟩
      cases i
      · exact hboth
      · rw [Int.add_comm]
        exact hboth
    exact Race.not_codesInOrder_of_hidden hhidden.exceeded hhidden.refused hfunds
      ((hagrees first).mp hagree)
  · intro hnot
    rcases Race.codesInOrder_or_hidden (fun i => (results i).reasonCode)
      (ht.outcome hresults) with
      ⟨first, hcodes⟩ | ⟨i, hexceeded, hrefused, balance, hbalance, hstakes, hboth⟩
    · exact ⟨first, (hagrees first).mpr hcodes⟩
    · refine absurd ⟨i, hexceeded, hrefused, ?_, ?_, ?_, balance, hbalance, hstakes, ?_⟩ hnot
      · intro j
        by_cases hj : j = i
        · rw [hflags, hj, hexceeded]
          rfl
        · rw [hflags, Bool.eq_not.mpr hj, hrefused]
          rfl
      · rw [ht.accounts hresults i, hflags, hflags, hexceeded, hrefused]
        exact (Race.charged_false _).trans (Race.charged_false _)
      · have houtcome := ht.outcome hresults i
        rw [hexceeded, hrefused] at houtcome
        obtain ⟨-, -, -, -, hfull | ⟨hcontra, -⟩⟩ := houtcome.of_saecExceeded
        · exact hfull
        · contradiction
      · cases i
        · exact hboth
        · rw [Bool.not_true, Int.add_comm]
          exact hboth

/-- A payload that stakes 100 of account `a` for a payout of 2000. -/
def crowdedPayload : Bytes :=
  utf8 "\x7b\"event_id\":\"e\",\"bet_id\":\"b\",\"account_id\":\"a\",\"idempotency_key\":\"k\"," ++
  utf8 "\"match_id\":\"m\",\"market_id\":\"w\",\"selection_id\":\"s\",\"odds\":\"2.0000\"," ++
  utf8 "\"stake_cents\":100,\"potential_payout_cents\":2000,\"bet_timestamp_ms\":1000\x7d"

/-- The bet of that payload. -/
def crowdedBet : BetSubmitted :=
  { sampleBet with potentialPayoutCents := 2000 }

/-- The payload is read as the bet. -/
theorem parseBetJson_crowdedPayload [order : FieldOrder] :
    parseBetJson crowdedPayload = .ok crowdedBet := by
  have hread : @parseBetJson insertionOrder crowdedPayload = .ok crowdedBet := by
    rw [crowdedPayload, utf8_ofList, utf8_ofList, utf8_ofList]
    decide +kernel
  exact parseBetJson_of_order insertionOrder order hread

theorem sampleEngine_fits : sampleEngine.accounts.Fits where
  balances := fun h =>
    ⟨Int.le_trans (by decide) (sampleEngine.seed_nonneg h), sampleEngine.seed_lt h⟩
  exposure := fun _ => by
    show IsInt64 0
    constructor <;> decide

/-- An account of 150 under a cap of 1000, and two bets of 100: the payout of one fits,
that of the other does not. -/
def sampleRace [FieldOrder] : Race where
  cap := 1000
  now := 1000
  accounts := sampleEngine.accounts
  account := utf8 "a"
  payload := fun i => if i then crowdedPayload else samplePayload
  bet := fun i => if i then crowdedBet else sampleBet
  fits := sampleEngine_fits
  parsed := Bool.forall_bool.mpr ⟨parseBetJson_samplePayload, parseBetJson_crowdedPayload⟩
  own := Bool.forall_bool.mpr ⟨rfl, rfl⟩

/-- The sample bet looks at the balance between the debit and the refund of the other. -/
def hidingSchedule : List (Bool × Move) :=
  [(true, .start 1000), (true, .atomic), (true, .atomic), (true, .atomic),
    (false, .start 1000), (false, .atomic), (false, .atomic), (false, .atomic),
    (true, .atomic), (true, .atomic)]

/-- The results of that schedule. -/
def hidingResults (i : Bool) : BetResult :=
  if i then .saecExceeded crowdedBet 1000 50 else .insufficientFunds sampleBet 1000 50

section Sample

attribute [local instance] insertionOrder

/-- The schedule leads to these results. -/
theorem sampleRace_hides :
    ∃ t, sampleRace.Reached t ∧ ∀ i, (t.calls i).result? = some (hidingResults i) := by
  have hexec : (hidingSchedule.foldlM (threadStep sampleRace.cap sampleRace.payload)
      sampleRace.start).map (fun s => ((s.calls false).result?, (s.calls true).result?)) =
      some (some (hidingResults false), some (hidingResults true)) := by
    show ((hidingSchedule.foldlM (threadStep 1000 fun i =>
      if i then crowdedPayload else samplePayload) sampleRace.start).map _) = _
    rw [crowdedPayload, samplePayload, utf8_ofList, utf8_ofList, utf8_ofList, utf8_ofList]
    decide +kernel
  obtain ⟨t, ht, hvalues⟩ := Option.map_eq_some_iff.mp hexec
  obtain ⟨hfalse, htrue⟩ := Prod.mk.inj hvalues
  refine ⟨t, Reaches.of_foldlM_guarded ?_ ht, Bool.forall_bool.mpr ⟨hfalse, htrue⟩⟩
  intro label hlabel _ time htime
  simp only [hidingSchedule, List.mem_cons, List.not_mem_nil, or_false] at hlabel
  rcases hlabel with rfl | rfl | rfl | rfl | rfl | rfl | rfl | rfl | rfl | rfl <;>
    first | contradiction | exact (Move.start.inj htime).symm

/-- In the sample race no order agrees with what the calls did. -/
theorem race_sequential_iff_sample :
    ∃ t : Threads Bool, ((∃ first, sampleRace.AgreesInOrder first hidingResults t.shared) ↔
      ¬ ∃ i, sampleRace.HiddenFunds i hidingResults t.shared) := by
  obtain ⟨t, hrun, hresults⟩ := sampleRace_hides
  exact ⟨t, race_sequential_iff hrun hresults⟩

/-- Two racing evaluations need not agree with any order of the two. -/
theorem race_not_sequential :
    ¬ ∀ (race : Race) (t : Threads Bool) (results : Bool → BetResult), race.Reached t →
      (∀ i, (t.calls i).result? = some (results i)) →
      ∃ first, race.AgreesInOrder first results t.shared := by
  intro hall
  obtain ⟨t, hrun, hresults⟩ := sampleRace_hides
  obtain ⟨first, hagree, -⟩ := hall sampleRace t hidingResults hrun hresults
  have hcodes : (fun i => (hidingResults i).reasonCode) =
      fun i => ((sampleRace.sequential first).1 i).reasonCode :=
    funext fun i => (hagree i).2
  have hfunds : sampleRace.EitherNotBoth :=
    ⟨150, by decide, Bool.forall_bool.mpr ⟨by decide, by decide⟩, by decide⟩
  have horder : sampleRace.CodesInOrder first fun i => (hidingResults i).reasonCode :=
    hcodes ▸ (sampleRace.sequential_spec first).1
  have hexceeded : (hidingResults true).reasonCode = .saecExceeded := rfl
  exact Race.not_codesInOrder_of_hidden hexceeded rfl hfunds horder

end Sample

end RiskEngine
end BettingPlatform
