import Mathlib.Algebra.BigOperators.Ring.Finset
import Mathlib.Algebra.Order.BigOperators.Group.Finset
import Mathlib.Data.Nat.Count
import Mathlib.Data.Int.CardIntervalMod
import BettingPlatform.RiskEngine.BalanceSeeds
import BettingPlatform.RiskEngine.Encodings

/-!
# The benchmark of the risk engine

`run_standalone_benchmark` seeds a hundred traders, warms the engine up, and evaluates
payloads that it concatenates itself.  One payload of fifty carries a quote that is half a
second old.

The clock is read twice in a round: for the payload, and when the engine decides.

Main results:

- Theorem `parseBetJson_payloadText`: the engine reads the concatenated payloads.
- Theorem `accepted_runStandaloneBenchmark`: how many events each run accepts.
- Theorem `rejected_eq_iff`: up to which event count only the stale quotes are rejected.
-/

namespace BettingPlatform
namespace RiskEngine
namespace Benchmark

open JsonGrammar

/-! ## Payloads -/

/-- The text that the harness concatenates. -/
def payloadText (bet : BetSubmitted) : Bytes :=
  utf8 "\x7b\"event_id\":\"" ++ bet.eventId ++
    utf8 "\",\"bet_id\":\"" ++ bet.betId ++
    utf8 "\",\"account_id\":\"" ++ bet.accountId ++
    utf8 "\",\"idempotency_key\":\"" ++ bet.idempotencyKey ++
    utf8 "\",\"match_id\":\"" ++ bet.matchId ++
    utf8 "\",\"market_id\":\"" ++ bet.marketId ++
    utf8 "\",\"selection_id\":\"" ++ bet.selectionId ++
    utf8 "\",\"stake_cents\":" ++ intDigits bet.stakeCents ++
    utf8 ",\"potential_payout_cents\":" ++ intDigits bet.potentialPayoutCents ++
    utf8 ",\"odds\":\"" ++ bet.odds ++
    utf8 "\",\"bet_timestamp_ms\":" ++ intDigits bet.betTimestampMs ++ utf8 "\x7d"

/-- A byte that stands raw in a string. -/
def IsRaw (b : UInt8) : Prop :=
  b ≠ ascii '"' ∧ b ≠ ascii '\\' ∧ 0x20 ≤ b

instance (b : UInt8) : Decidable (IsRaw b) := inferInstanceAs (Decidable (_ ∧ _))

/-- Raw bytes spell themselves. -/
theorem spelled_raw {v : Bytes} (hv : ∀ b ∈ v, IsRaw b) : Spelled v v := by
  induction v with
  | nil => exact .nil
  | cons b v ih =>
      obtain ⟨⟨hquote, hbackslash, hcontrol⟩, hrest⟩ := List.forall_mem_cons.mp hv
      exact .raw hquote hbackslash hcontrol (ih hrest)

/-- A value as the harness writes it. -/
def rawValue : Value → Bytes
  | .str text => ascii '"' :: (text ++ [ascii '"'])
  | .int n => intDigits n
  | .bool b => utf8 (if b then "true" else "false")

/-- A member as the harness writes it. -/
def rawMember (m : Bytes × Value) : Bytes :=
  ascii '"' :: (m.1 ++ ascii '"' :: ascii ':' :: rawValue m.2)

/-- The members of an object with commas between them. -/
def rawMembers : List (Bytes × Value) → Bytes
  | [] => []
  | [m] => rawMember m
  | m :: ms => rawMember m ++ ascii ',' :: rawMembers ms

/-- A value that needs no escapes. -/
def IsRawValue (v : Value) : Prop :=
  (∃ text, v = .str text ∧ ∀ b ∈ text, IsRaw b) ∨ ∃ n, v = .int n

/-- A member is read back from the text the benchmark joins. -/
theorem member_rawMember {m : Bytes × Value} (hname : ∀ b ∈ m.1, IsRaw b) (hv : IsRawValue m.2)
    {c : UInt8} (hc : isDigit c = false) (r : Bytes) :
    Member SpelledToken (rawMember m ++ c :: r) m (c :: r) := by
  obtain ⟨name, v⟩ := m
  have hvalue : ValueToken SpelledToken (rawValue v ++ c :: r) v (c :: r) := by
    rcases hv with ⟨text, rfl, htext⟩ | ⟨n, rfl⟩
    · apply ValueToken.str
      exact ⟨text, spelled_raw htext, by simp [rawValue]⟩
    · apply ValueToken.int
      exact intToken_intDigits n (by simpa using hc)
  apply Member.mk .nil ⟨name, spelled_raw hname, _⟩ .nil .nil hvalue
  simp [rawMember]

/-- And so are all of them. -/
theorem members_rawMembers {m : Bytes × Value} {ms : List (Bytes × Value)}
    (hms : ∀ m' ∈ m :: ms, (∀ b ∈ m'.1, IsRaw b) ∧ IsRawValue m'.2) (r : Bytes) :
    Members SpelledToken (rawMembers (m :: ms) ++ ascii '\x7d' :: r) (m :: ms)
      (ascii '\x7d' :: r) := by
  induction ms generalizing m with
  | nil =>
      obtain ⟨hname, hv⟩ := hms m List.mem_cons_self
      exact .one (member_rawMember hname hv rfl r)
  | cons next ms ih =>
      obtain ⟨⟨hname, hv⟩, hlater⟩ := List.forall_mem_cons.mp hms
      have hmember := @member_rawMember m hname hv (ascii ',') rfl
        (rawMembers (next :: ms) ++ ascii '\x7d' :: r)
      rw [rawMembers, List.append_assoc, List.cons_append]
      · exact .more hmember .nil (ih hlater)
      · exact fun h => List.cons_ne_nil _ _ h

/-- A literal between two values closes one, has a name, and opens the next. -/
theorem utf8_between {literal front name back : String} (h : literal = front ++ name ++ back) :
    utf8 literal = utf8 front ++ (utf8 name ++ utf8 back) := by
  rw [h, utf8_append, utf8_append, List.append_assoc]

/-- The concatenation is the object of the bet's members. -/
theorem payloadText_eq (bet : BetSubmitted) :
    payloadText bet = ascii '\x7b' :: (rawMembers bet.members ++ [ascii '\x7d']) := by
  have hevent : utf8 "\x7b\"event_id\":\"" = _ :=
    @utf8_between _ "\x7b\"" "event_id" "\":\"" rfl
  have hstring : ∀ name, utf8 ("\",\"" ++ name ++ "\":\"") = _ := fun name =>
    @utf8_between _ "\",\"" name "\":\"" rfl
  have hint : ∀ name, utf8 ("\",\"" ++ name ++ "\":") = _ := fun name =>
    @utf8_between _ "\",\"" name "\":" rfl
  have hpayout : utf8 ",\"potential_payout_cents\":" = _ :=
    @utf8_between _ ",\"" "potential_payout_cents" "\":" rfl
  have hodds : utf8 ",\"odds\":\"" = _ := @utf8_between _ ",\"" "odds" "\":\"" rfl
  have hbet := hstring "bet_id"
  have haccount := hstring "account_id"
  have hkey := hstring "idempotency_key"
  have hmatch := hstring "match_id"
  have hmarket := hstring "market_id"
  have hselection := hstring "selection_id"
  have hstake := hint "stake_cents"
  have hts := hint "bet_timestamp_ms"
  have hopen : utf8 "\x7b\"" = [ascii '\x7b', ascii '"'] := by decide
  have hnext : utf8 "\",\"" = [ascii '"', ascii ',', ascii '"'] := by decide
  have hnext' : utf8 ",\"" = [ascii ',', ascii '"'] := by decide
  have hcolon : utf8 "\":\"" = [ascii '"', ascii ':', ascii '"'] := by decide
  have hcolon' : utf8 "\":" = [ascii '"', ascii ':'] := by decide
  have hclose : utf8 "\x7d" = [ascii '\x7d'] := by decide
  simp only [String.reduceAppend] at hbet haccount hkey hmatch hmarket hselection hstake hts
  unfold payloadText
  simp only [hevent, hbet, haccount, hkey, hmatch, hmarket, hselection, hstake, hpayout, hodds, hts]
  simp only [hopen, hnext, hnext', hcolon, hcolon', hclose]
  simp only [BetSubmitted.members, rawMembers, rawMember, rawValue]
  simp only [List.append_assoc, List.cons_append, List.nil_append]

/-- The engine reads the concatenation back, when no string needs an escape. -/
theorem parseBetJson_payloadText [FieldOrder] {bet : BetSubmitted} (hvalid : bet.Valid)
    (hstrings : ∀ text ∈ bet.strings, ∀ b ∈ text, IsRaw b) :
    parseBetJson (payloadText bet) = .ok bet := by
  apply hvalid.parse_encoding
  have hnames : ∀ name ∈ allowed, ∀ b ∈ name, IsRaw b := by decide +kernel
  have hms : ∀ m ∈ bet.members, (∀ b ∈ m.1, IsRaw b) ∧ IsRawValue m.2 := by
    intro m hm
    constructor
    · apply hnames
      rw [← bet.members_names]
      exact List.mem_map_of_mem hm
    · obtain ⟨name, v⟩ := m
      cases v with
      | str text =>
          refine Or.inl ⟨text, rfl, hstrings text ?_⟩
          simp only [BetSubmitted.members, List.mem_cons, Prod.mk.injEq, reduceCtorEq, and_false,
            Value.str.injEq, List.not_mem_nil, or_false, false_or] at hm
          simp only [BetSubmitted.strings, List.mem_cons, List.not_mem_nil, or_false]
          rcases hm with h | h | h | h | h | h | h | h <;> simp [h.2]
      | int n => exact Or.inr ⟨n, rfl⟩
      | bool b => exact absurd rfl (bet.members_notBool _ hm b)
  have hobject :=
    @IsObject.members SpelledToken _ _ _ _ _ .nil (members_rawMembers hms []) .nil .nil
  rw [payloadText_eq]
  exact ⟨bet.members, .refl _, hobject⟩

/-! ## The harness -/

/-- `exposure_cap`. -/
def exposureCap : Int := 1000000000

/-- The balance that every account is seeded with. -/
def initialBalance : Int := 500000000

/-- `kAccountPoolSize`. -/
def accountPoolSize : Nat := 100

/-- `"trader-" + std::to_string(i)`. -/
def trader (i : Nat) : Bytes :=
  utf8 "trader-" ++ natDigits i

/-- The accounts the harness seeds. -/
def seededAccounts : List (Bytes × Int) :=
  (List.range accountPoolSize).map (fun i => (trader i, initialBalance)) ++
    [(utf8 "demo-account", initialBalance)]

/-- The bet of a round of the warm-up phase. -/
def warmupBet (i : Nat) (nowMs : Int) : BetSubmitted where
  eventId := utf8 "warmup-" ++ natDigits i
  betId := utf8 "bet-w-" ++ natDigits i
  accountId := utf8 "demo-account"
  idempotencyKey := utf8 "idem-w-" ++ natDigits i
  matchId := utf8 "match-0001"
  marketId := utf8 "full-time-result"
  selectionId := utf8 "home"
  odds := utf8 "2.0000"
  stakeCents := 100
  potentialPayoutCents := 200
  betTimestampMs := nowMs

/-- `match_ids`. -/
def matchIds : Vector String 5 :=
  #v["match-0001", "match-0002", "match-0003", "match-0004", "match-0005"]

/-- `selections`. -/
def selections : Vector String 3 := #v["home", "draw", "away"]

/-- `odds_list`. -/
def oddsList : Vector String 5 := #v["1.9500", "2.1000", "3.4500", "1.5000", "4.2000"]

/-- The stake of a round. -/
def stake (i : Nat) : Nat :=
  1000 + i % 50 * 100

/-- `is_stale`. -/
def isStale (i : Nat) : Bool :=
  i % 50 = 49

/-- `bet_ts`. -/
def betTs (i : Nat) (nowMs : Int) : Int :=
  if isStale i then nowMs - 500 else nowMs

/-- The bet of a round of the timed loop. -/
def timedBet (i : Nat) (nowMs : Int) : BetSubmitted where
  eventId := utf8 "ev-" ++ natDigits i
  betId := utf8 "bet-" ++ natDigits i
  accountId := trader (i % accountPoolSize)
  idempotencyKey := utf8 "idem-" ++ natDigits i
  matchId := utf8 (matchIds[i % 5])
  marketId := utf8 "full-time-result"
  selectionId := utf8 (selections[i % 3])
  odds := utf8 (oddsList[i % 5])
  stakeCents := stake i
  potentialPayoutCents := stake i * 2
  betTimestampMs := betTs i nowMs

/-- What the system clock shows in a round: when the payload is written, and when the engine
decides.  The stale quotes are from after the epoch, too. -/
structure Reading where
  nowMs : Int
  decisionMs : Int
  now_range : 500 < nowMs ∧ nowMs < 2 ^ 63

/-- A round of the warm-up phase. -/
def warmupRound [FieldOrder] (clock : Nat → Reading) (s : Accounts) (i : Nat) : Accounts :=
  (evaluateJson exposureCap s (clock i).decisionMs
    (payloadText (warmupBet i (clock i).nowMs))).2

/-- The engine's accounts, `accepted_count` and `rejected_count`. -/
structure Tally where
  accounts : Accounts
  accepted : Nat
  rejected : Nat

/-- A decision is counted. -/
def Tally.count (t : Tally) (decision : BetResult × Accounts) : Tally :=
  if decision.1.accepted then ⟨decision.2, t.accepted + 1, t.rejected⟩
  else ⟨decision.2, t.accepted, t.rejected + 1⟩

/-- A round of the timed loop. -/
def timedRound [FieldOrder] (clock : Nat → Reading) (t : Tally) (i : Nat) : Tally :=
  t.count (evaluateJson exposureCap t.accounts (clock i).decisionMs
    (payloadText (timedBet i (clock i).nowMs)))

/-- `run_standalone_benchmark` up to its metrics. -/
def runStandaloneBenchmark [FieldOrder] (eventCount : UInt64) (warmup timed : Nat → Reading) :
    Tally :=
  let warm := (List.range 1000).foldl (warmupRound warmup) (.seedAll .fresh seededAccounts)
  (List.range eventCount.toNat).foldl (timedRound timed) ⟨warm, 0, 0⟩

/-! ## What the engine reads -/

/-- A 64-bit integer has at most twenty digits. -/
theorem natDigits_length {n : Nat} (hn : n < 2 ^ 64) : (natDigits n).length ≤ 20 := by
  rw [natDigits, List.length_map]
  apply Nat.toDigits_length
  · decide
  · omega

/-- Different numbers have different digits. -/
theorem natDigits_injective {m n : Nat} (h : natDigits m = natDigits n) : m = n := by
  rw [← digitsValue_natDigits m, h, digitsValue_natDigits]

theorem isRaw_of_isDigit {b : UInt8} (hb : isDigit b) : IsRaw b := by
  refine ⟨?_, ?_, ?_⟩
  · rintro rfl
    contradiction
  · rintro rfl
    contradiction
  · simp only [isDigit, Bool.and_eq_true, decide_eq_true_eq] at hb
    exact UInt8.le_trans (by decide) hb.1

/-- A string of a payload: it has 1 to 128 bytes, and none needs an escape. -/
def IsPlain (text : Bytes) : Prop :=
  (1 ≤ text.length ∧ text.length ≤ 128) ∧ ∀ b ∈ text, IsRaw b

instance (text : Bytes) : Decidable (IsPlain text) := inferInstanceAs (Decidable (_ ∧ _))

/-- A short text with the number of a round behind it. -/
theorem isPlain_numbered {front : Bytes}
    (hfront : front.length ≤ 100 ∧ ∀ b ∈ front, IsRaw b) {n : Nat} (hn : n < 2 ^ 64) :
    IsPlain (front ++ natDigits n) := by
  have hlength := natDigits_length hn
  have hpos := List.length_pos_iff.mpr (natDigits_ne_nil n)
  refine ⟨?_, fun b hb => ?_⟩
  · rw [List.length_append]
    omega
  · rcases List.mem_append.mp hb with hb | hb
    · exact hfront.2 b hb
    · exact isRaw_of_isDigit (isDigit_of_mem_natDigits hb)

/-- A bet whose strings are plain, and whose payout is twice its small stake. -/
theorem parseBetJson_of_plain [FieldOrder] {bet : BetSubmitted}
    (hstrings : ∀ text ∈ bet.strings, IsPlain text)
    (hstake : 0 < bet.stakeCents ∧ bet.stakeCents < 10000)
    (hpayout : bet.potentialPayoutCents = bet.stakeCents * 2)
    (hts : 0 < bet.betTimestampMs ∧ bet.betTimestampMs < 2 ^ 63) :
    parseBetJson (payloadText bet) = .ok bet := by
  apply parseBetJson_payloadText
  · refine ⟨fun text htext => (hstrings text htext).1, hstake.1, ?_, ?_, hts.1, hts.2⟩
    · omega
    · omega
  · exact fun text htext => (hstrings text htext).2

/-- The payload of a warmup round is read as its bet. -/
theorem parse_warmupBet [FieldOrder] {i : Nat} (hi : i < 1000) (reading : Reading) :
    parseBetJson (payloadText (warmupBet i reading.nowMs)) = .ok (warmupBet i reading.nowMs) := by
  have hrange := reading.now_range
  apply parseBetJson_of_plain
  · have hlt : i < 2 ^ 64 := by omega
    simp only [BetSubmitted.strings, warmupBet, List.forall_mem_cons, List.not_mem_nil,
      false_implies, implies_true, and_true]
    exact ⟨isPlain_numbered (by decide +kernel) hlt, isPlain_numbered (by decide +kernel) hlt,
      by decide +kernel, isPlain_numbered (by decide +kernel) hlt, by decide +kernel,
      by decide +kernel, by decide +kernel, by decide +kernel⟩
  · simp [warmupBet]
  · rfl
  · simp only [warmupBet]
    omega

/-- The stakes run from ten to fifty-nine units. -/
theorem stake_range (i : Nat) : 1000 ≤ stake i ∧ stake i ≤ 5900 := by
  unfold stake
  omega

/-- The timestamps are positive 64-bit integers. -/
theorem betTs_range (i : Nat) (reading : Reading) :
    0 < betTs i reading.nowMs ∧ betTs i reading.nowMs < 2 ^ 63 := by
  have hrange := reading.now_range
  unfold betTs
  split
  · omega
  · omega

/-- The tables hold no byte that JSON would escape. -/
theorem isPlain_tables : (∀ k : Fin 5, IsPlain (utf8 matchIds[k])) ∧
    (∀ k : Fin 3, IsPlain (utf8 selections[k])) ∧ ∀ k : Fin 5, IsPlain (utf8 oddsList[k]) := by
  decide +kernel

/-- The payload of a timed round is read as its bet. -/
theorem parse_timedBet [FieldOrder] {i : Nat} (hi : i < 2 ^ 64) (reading : Reading) :
    parseBetJson (payloadText (timedBet i reading.nowMs)) = .ok (timedBet i reading.nowMs) := by
  obtain ⟨hmatch, hselection, hodds⟩ := isPlain_tables
  apply parseBetJson_of_plain
  · have hpool : i % accountPoolSize < 2 ^ 64 := (Nat.mod_le _ _).trans_lt hi
    simp only [BetSubmitted.strings, timedBet, trader, List.forall_mem_cons, List.not_mem_nil,
      false_implies, implies_true, and_true]
    exact ⟨isPlain_numbered (by decide +kernel) hi, isPlain_numbered (by decide +kernel) hi,
      isPlain_numbered (by decide +kernel) hpool, isPlain_numbered (by decide +kernel) hi,
      hmatch ⟨i % 5, by omega⟩, by decide +kernel, hselection ⟨i % 3, by omega⟩,
      hodds ⟨i % 5, by omega⟩⟩
  · have hrange := stake_range i
    simp only [timedBet]
    omega
  · rfl
  · exact betTs_range i reading

/-! ## The accounts -/

/-- The accounts of the pool differ from each other. -/
theorem trader_injective {i j : Nat} (h : trader i = trader j) : i = j :=
  natDigits_injective (List.append_cancel_left h)

/-- The demo account is none of them. -/
theorem demoAccount_ne_trader (i : Nat) : utf8 "demo-account" ≠ trader i := by
  intro h
  have hhead := congrArg List.head? h
  have htrader : (trader i).head? = some (ascii 't') := rfl
  rw [htrader] at hhead
  revert hhead
  decide

/-- Each account of the pool starts with the initial balance. -/
theorem seededAccounts_trader {i : Nat} (hi : i < accountPoolSize) :
    (Accounts.fresh.seedAll seededAccounts).balances (trader i) = some initialBalance := by
  rw [seedAll_balances]
  have hmem : (trader i, initialBalance) ∈
      seededAccounts.filter fun seed => seed.1 = trader i := by
    apply List.mem_filter.mpr
    refine ⟨?_, by simp⟩
    apply List.mem_append_left
    exact List.mem_map.mpr ⟨i, List.mem_range.mpr hi, rfl⟩
  have hall : ∀ seed ∈ seededAccounts.filter (fun seed => seed.1 = trader i),
      seed.2 = initialBalance := by
    intro seed hseed
    rcases List.mem_append.mp (List.mem_filter.mp hseed).1 with hseed | hseed
    · obtain ⟨j, -, rfl⟩ := List.mem_map.mp hseed
      rfl
    · rw [List.mem_singleton.mp hseed]
  cases hlast : (seededAccounts.filter fun seed => seed.1 = trader i).getLast? with
  | none =>
      rw [List.getLast?_eq_none_iff.mp hlast] at hmem
      contradiction
  | some seed => simp [hall seed (List.mem_of_getLast? hlast)]

/-- A call on another account leaves an account alone. -/
theorem evaluateJson_other [FieldOrder] {cap now : Int} {s : Accounts} {payload account : Bytes}
    {bet : BetSubmitted} (hparse : parseBetJson payload = .ok bet) (hne : account ≠ bet.accountId) :
    (evaluateJson cap s now payload).2.balances account = s.balances account ∧
      (evaluateJson cap s now payload).2.exposure account = s.exposure account := by
  have hdone := @evaluated_evaluateJson _ cap now s payload bet hparse
  generalize evaluateJson cap s now payload = outcome at hdone ⊢
  cases hdone with
  | staleQuote => exact ⟨rfl, rfl⟩
  | accountNotFound => exact ⟨rfl, rfl⟩
  | insufficientFunds => exact ⟨rfl, rfl⟩
  | saecExceeded => exact ⟨Accounts.setBalance_balances_of_ne _ _ hne, rfl⟩
  | acceptance =>
      refine ⟨?_, ?_⟩
      · rw [Accounts.setExposure_balances]
        exact Accounts.setBalance_balances_of_ne _ _ hne
      · exact Function.update_of_ne hne _ _

/-- The warmup bets on the demo account and leaves the pool as it is. -/
theorem warmupRound_other [FieldOrder] (clock : Nat → Reading) (s : Accounts) {n : Nat}
    (hn : n < 1000) (i : Nat) :
    (warmupRound clock s n).balances (trader i) = s.balances (trader i) ∧
      (warmupRound clock s n).exposure (trader i) = s.exposure (trader i) := by
  unfold warmupRound
  apply evaluateJson_other (parse_warmupBet hn (clock n))
  exact (demoAccount_ne_trader i).symm

/-- The warm-up phase stays on its own account. -/
theorem warmup_other [FieldOrder] (clock : Nat → Reading) (s : Accounts) {n : Nat} (hn : n ≤ 1000)
    (i : Nat) :
    ((List.range n).foldl (warmupRound clock) s).balances (trader i) = s.balances (trader i) ∧
      ((List.range n).foldl (warmupRound clock) s).exposure (trader i) = s.exposure (trader i) := by
  induction n with
  | zero => exact ⟨rfl, rfl⟩
  | succ n ih =>
      obtain ⟨hbalances, hexposure⟩ := ih (by omega)
      rw [List.range_succ, List.foldl_append, List.foldl_cons, List.foldl_nil]
      generalize (List.range n).foldl (warmupRound clock) s = t at hbalances hexposure ⊢
      obtain ⟨hbalances', hexposure'⟩ := warmupRound_other clock t (Nat.lt_of_succ_le hn) i
      exact ⟨hbalances'.trans hbalances, hexposure'.trans hexposure⟩

/-! ## The timed loop -/

/-- The quote of a round is at most 200 ms old when the engine decides. -/
def IsFresh (clock : Nat → Reading) (i : Nat) : Prop :=
  (clock i).decisionMs - betTs i (clock i).nowMs ≤ staleQuoteProtectionMs

instance (clock : Nat → Reading) (i : Nat) : Decidable (IsFresh clock i) :=
  inferInstanceAs (Decidable (_ ≤ _))

/-- The rounds of a trader with a fresh quote, among the first `n`. -/
def freshRounds (clock : Nat → Reading) (account n : Nat) : Nat :=
  n.count fun i => i % accountPoolSize = account ∧ IsFresh clock i

/-- How many stakes of a trader the initial balance covers. -/
def coveredStakes (account : Nat) : Nat :=
  500000000 / stake account

/-- The accepted rounds of a trader. -/
def acceptedRounds (clock : Nat → Reading) (account n : Nat) : Nat :=
  min (freshRounds clock account n) (coveredStakes account)

/-- The traders' accounts and the counters after `n` rounds. -/
structure Booked (clock : Nat → Reading) (n : Nat) (t : Tally) : Prop where
  balances : ∀ a < accountPoolSize, t.accounts.balances (trader a) =
    some (initialBalance - (stake a * acceptedRounds clock a n : Nat))
  exposure : ∀ a < accountPoolSize, t.accounts.exposure (trader a) =
    (stake a * acceptedRounds clock a n * 2 : Nat)
  accepted : t.accepted = ∑ a ∈ Finset.range accountPoolSize, acceptedRounds clock a n
  total : t.accepted + t.rejected = n

/-- The stakes repeat with the pool, so that an account always bets the same. -/
theorem stake_mod (i : Nat) : stake (i % accountPoolSize) = stake i := by
  unfold stake accountPoolSize
  rw [Nat.mod_mod_of_dvd i (by decide)]

/-- A round is about one trader. -/
theorem acceptedRounds_other (clock : Nat → Reading) {a n : Nat} (hne : a ≠ n % accountPoolSize) :
    acceptedRounds clock a (n + 1) = acceptedRounds clock a n := by
  unfold acceptedRounds freshRounds
  rw [Nat.count_succ, if_neg (fun h => hne h.1.symm), Nat.add_zero]

/-- A stale round is accepted for no account. -/
theorem acceptedRounds_stale {clock : Nat → Reading} {n : Nat} (hstale : ¬ IsFresh clock n)
    (a : Nat) : acceptedRounds clock a (n + 1) = acceptedRounds clock a n := by
  unfold acceptedRounds freshRounds
  rw [Nat.count_succ, if_neg (fun h => hstale h.2), Nat.add_zero]

/-- A fresh round is one of its account. -/
theorem freshRounds_fresh {clock : Nat → Reading} {n : Nat} (hfresh : IsFresh clock n) :
    freshRounds clock (n % accountPoolSize) (n + 1) =
      freshRounds clock (n % accountPoolSize) n + 1 := by
  unfold freshRounds
  rw [Nat.count_succ, if_pos ⟨rfl, hfresh⟩]

/-- The balance covers one more stake as long as fewer than the covered ones are accepted. -/
theorem lt_coveredStakes_iff (a k : Nat) :
    k < coveredStakes a ↔ stake a * k + stake a ≤ 500000000 := by
  have hpos : 0 < stake a := (stake_range a).1.trans_lt' (by decide)
  unfold coveredStakes
  rw [← Nat.succ_le_iff, Nat.le_div_iff_mul_le hpos, Nat.mul_comm, Nat.mul_succ]

/-- A fresh quote is accepted when the balance covers it. -/
theorem acceptedRounds_fresh {clock : Nat → Reading} {n : Nat} (hfresh : IsFresh clock n) :
    acceptedRounds clock (n % accountPoolSize) (n + 1) =
      acceptedRounds clock (n % accountPoolSize) n +
        if acceptedRounds clock (n % accountPoolSize) n < coveredStakes (n % accountPoolSize) then 1
        else 0 := by
  unfold acceptedRounds
  rw [freshRounds_fresh hfresh]
  split
  · omega
  · omega

/-- A round moves one trader's account and one of the counters. -/
theorem Booked.round {clock : Nat → Reading} {n : Nat} {t : Tally} (h : Booked clock n t)
    {decision : BetResult × Accounts} {k : Nat}
    (hk : acceptedRounds clock (n % accountPoolSize) (n + 1) =
      acceptedRounds clock (n % accountPoolSize) n + k)
    (hresult : k = if decision.1.accepted then 1 else 0)
    (hother : ∀ a, trader a ≠ trader (n % accountPoolSize) →
      decision.2.balances (trader a) = t.accounts.balances (trader a) ∧
        decision.2.exposure (trader a) = t.accounts.exposure (trader a))
    (hbalance : decision.2.balances (trader (n % accountPoolSize)) =
      some (initialBalance - (stake (n % accountPoolSize) *
        acceptedRounds clock (n % accountPoolSize) (n + 1) : Nat)))
    (hexposure : decision.2.exposure (trader (n % accountPoolSize)) =
      (stake (n % accountPoolSize) *
        acceptedRounds clock (n % accountPoolSize) (n + 1) * 2 : Nat)) :
    Booked clock (n + 1) (t.count decision) := by
  have hcells : ∀ a < accountPoolSize,
      decision.2.balances (trader a) =
          some (initialBalance - (stake a * acceptedRounds clock a (n + 1) : Nat)) ∧
        decision.2.exposure (trader a) = (stake a * acceptedRounds clock a (n + 1) * 2 : Nat) := by
    intro a ha
    by_cases hsame : a = n % accountPoolSize
    · rw [hsame]
      exact ⟨hbalance, hexposure⟩
    · obtain ⟨hbalances, hexposures⟩ := hother a fun heq => hsame (trader_injective heq)
      rw [acceptedRounds_other clock hsame, hbalances, hexposures]
      exact ⟨h.balances a ha, h.exposure a ha⟩
  have hsum : ∑ a ∈ Finset.range accountPoolSize, acceptedRounds clock a (n + 1) =
      t.accepted + k := by
    have heach : ∀ a ∈ Finset.range accountPoolSize, acceptedRounds clock a (n + 1) =
        acceptedRounds clock a n + if a = n % accountPoolSize then k else 0 := by
      intro a _
      split
      · rename_i hsame
        rw [hsame, hk]
      · rename_i hne
        exact acceptedRounds_other clock hne
    have hmem : n % accountPoolSize ∈ Finset.range accountPoolSize :=
      Finset.mem_range.mpr (Nat.mod_lt n (by decide))
    rw [Finset.sum_congr rfl heach, Finset.sum_add_distrib, Finset.sum_ite_eq', if_pos hmem,
      h.accepted]
  have htotal := h.total
  unfold Tally.count
  split at hresult
  · rename_i haccepted
    rw [if_pos haccepted]
    refine ⟨fun a ha => (hcells a ha).1, fun a ha => (hcells a ha).2, ?_, ?_⟩
    · rw [hsum, hresult]
    · rw [← htotal]
      exact Nat.succ_add _ _
  · rename_i hrejected
    rw [if_neg hrejected]
    refine ⟨fun a ha => (hcells a ha).1, fun a ha => (hcells a ha).2, ?_, ?_⟩
    · rw [hsum, hresult]
      rfl
    · rw [← htotal]
      exact (Nat.add_assoc _ _ _).symm

/-- One round of the timed loop: the balance and the cap cover the same number of stakes. -/
theorem booked_timedRound [FieldOrder] {clock : Nat → Reading} {n : Nat} (hn : n < 2 ^ 64)
    {t : Tally} (h : Booked clock n t) : Booked clock (n + 1) (timedRound clock t n) := by
  have hparse := parse_timedBet hn (clock n)
  have hpool : n % accountPoolSize < accountPoolSize := Nat.mod_lt n (by decide)
  have hcell := h.balances _ hpool
  have hreserved := h.exposure _ hpool
  have hcovers := lt_coveredStakes_iff (n % accountPoolSize)
    (acceptedRounds clock (n % accountPoolSize) n)
  have hother : ∀ a, trader a ≠ trader (n % accountPoolSize) → _ := fun a hne =>
    @evaluateJson_other _ exposureCap (clock n).decisionMs t.accounts _ _ _ hparse hne
  have hdone := @evaluated_evaluateJson _ exposureCap (clock n).decisionMs t.accounts _ _ hparse
  have hfreshStep : ∀ hfresh : IsFresh clock n, _ := fun hfresh => acceptedRounds_fresh hfresh
  have hstaleStep : ∀ hstale : ¬ IsFresh clock n, _ := fun hstale =>
    acceptedRounds_stale hstale (n % accountPoolSize)
  unfold timedRound
  generalize evaluateJson exposureCap t.accounts (clock n).decisionMs
    (payloadText (timedBet n (clock n).nowMs)) = decision at hother hdone ⊢
  have hround := @Booked.round clock n t h decision
  generalize hbet : timedBet n (clock n).nowMs = bet at hdone
  have haccount : bet.accountId = trader (n % accountPoolSize) := hbet ▸ rfl
  have hstake : bet.stakeCents = stake (n % accountPoolSize) := by
    rw [stake_mod]
    exact hbet ▸ rfl
  have hpayout : bet.potentialPayoutCents = stake (n % accountPoolSize) * 2 := by
    rw [stake_mod]
    exact hbet ▸ rfl
  have hts : IsFresh clock n ↔
      (clock n).decisionMs - bet.betTimestampMs ≤ staleQuoteProtectionMs :=
    hbet ▸ Iff.rfl
  generalize n % accountPoolSize = a at *
  generalize acceptedRounds clock a n = k at *
  generalize acceptedRounds clock a (n + 1) = k' at *
  have hnext : stake a * (k + 1) = stake a * k + stake a := Nat.mul_succ _ _
  suffices hmoved : ∃ d, k' = k + d ∧ (d = if decision.1.accepted then 1 else 0) ∧
      decision.2.balances (trader a) = some (initialBalance - (stake a * k' : Nat)) ∧
      decision.2.exposure (trader a) = (stake a * k' * 2 : Nat) by
    obtain ⟨d, hd, hresult, hbalance, hexposure⟩ := hmoved
    exact hround hd hresult hother hbalance hexposure
  clear hround hother h hparse hbet
  cases hdone with
  | staleQuote hstale =>
      have hsame := hstaleStep fun hfresh => absurd (hts.mp hfresh) (not_le.mpr hstale)
      rw [hsame]
      exact ⟨0, rfl, rfl, hcell, hreserved⟩
  | accountNotFound _ hnone =>
      rw [haccount, hcell] at hnone
      contradiction
  | insufficientFunds hfresh hfunds hshort =>
      rw [haccount, hcell, Option.some.injEq] at hfunds
      have hsame := hfreshStep (hts.mpr hfresh)
      rw [if_neg (by unfold initialBalance at hfunds; omega)] at hsame
      rw [hsame]
      exact ⟨0, rfl, rfl, hcell, hreserved⟩
  | saecExceeded _ hfunds henough hcap =>
      rw [haccount, hcell, Option.some.injEq] at hfunds
      rw [haccount, hreserved] at hcap
      unfold initialBalance at hfunds
      unfold exposureCap at hcap
      omega
  | acceptance hfresh hfunds henough hroom =>
      rw [haccount, hcell, Option.some.injEq] at hfunds
      have hmore := hfreshStep (hts.mpr hfresh)
      rw [if_pos (by unfold initialBalance at hfunds; omega)] at hmore
      refine ⟨1, hmore, rfl, ?_, ?_⟩
      · rw [haccount, Accounts.setExposure_balances, Accounts.setBalance_balances_self, hmore,
          Option.some.injEq]
        omega
      · rw [haccount, hmore, Accounts.setExposure]
        simp only [Function.update_self, hreserved]
        omega

/-- The account of every trader, and the counters, when the benchmark ends. -/
theorem booked_runStandaloneBenchmark [FieldOrder] (eventCount : UInt64)
    (warmup timed : Nat → Reading) :
    Booked timed eventCount.toNat (runStandaloneBenchmark eventCount warmup timed) := by
  unfold runStandaloneBenchmark
  have hother := fun a => warmup_other warmup (.seedAll .fresh seededAccounts) le_rfl a
  have hlt : eventCount.toNat ≤ 2 ^ 64 := eventCount.toNat_lt.le
  generalize eventCount.toNat = n at hlt
  generalize (List.range 1000).foldl (warmupRound warmup) _ = warm at hother
  induction n with
  | zero =>
      have hnone : ∀ a, acceptedRounds timed a 0 = 0 := fun a => by
        simp [acceptedRounds, freshRounds]
      rw [List.range_zero, List.foldl_nil]
      refine ⟨fun a ha => ?_, fun a _ => ?_, ?_, rfl⟩
      · rw [hnone, (hother a).1, seededAccounts_trader ha]
        simp
      · rw [hnone, (hother a).2, seedAll_exposure]
        rfl
      · simp [hnone]
  | succ n ih =>
      rw [List.range_succ, List.foldl_append, List.foldl_cons, List.foldl_nil]
      exact booked_timedRound (Nat.lt_of_succ_le hlt) (ih (Nat.le_of_succ_le hlt))

/-- For every event count and every clock: a trader's fresh events are accepted until the
initial balance covers no further stake, everything else is rejected, and the trader's cells
hold exactly what was accepted. -/
theorem accepted_runStandaloneBenchmark [FieldOrder] (eventCount : UInt64)
    (warmup timed : Nat → Reading) :
    (runStandaloneBenchmark eventCount warmup timed).accepted =
        ∑ a ∈ Finset.range 100, min (freshRounds timed a eventCount.toNat) (500000000 / stake a) ∧
      (runStandaloneBenchmark eventCount warmup timed).accepted +
        (runStandaloneBenchmark eventCount warmup timed).rejected = eventCount.toNat ∧
      ∀ a < 100, ∃ k, k = min (freshRounds timed a eventCount.toNat) (500000000 / stake a) ∧
        (runStandaloneBenchmark eventCount warmup timed).accounts.balances (trader a) =
          some (500000000 - ((stake a * k : Nat) : Int)) ∧
        (runStandaloneBenchmark eventCount warmup timed).accounts.exposure (trader a) =
          (stake a * k * 2 : Nat) := by
  have h := booked_runStandaloneBenchmark eventCount warmup timed
  exact ⟨h.accepted, h.total, fun a ha => ⟨_, rfl, h.balances a ha, h.exposure a ha⟩⟩

/-! ## Two percent stale quotes -/

/-- The engine decides within the 200 ms after the payload was written. -/
def OnTime (clock : Nat → Reading) : Prop :=
  ∀ i, (clock i).nowMs ≤ (clock i).decisionMs ∧ (clock i).decisionMs ≤ (clock i).nowMs + 200

/-- On time every fiftieth round is stale and no other. -/
theorem OnTime.isFresh_iff {clock : Nat → Reading} (h : OnTime clock) (i : Nat) :
    IsFresh clock i ↔ i % 50 ≠ 49 := by
  have hlate := h i
  unfold IsFresh betTs isStale staleQuoteProtectionMs
  simp only [decide_eq_true_eq]
  split
  · omega
  · omega

/-- How often it is the turn of a trader. -/
theorem OnTime.freshRounds_eq {clock : Nat → Reading} (h : OnTime clock) {a : Nat} (ha : a < 100)
    (n : Nat) : freshRounds clock a n =
      if a % 50 = 49 then 0 else n / 100 + if a < n % 100 then 1 else 0 := by
  unfold freshRounds accountPoolSize
  by_cases hstale : a % 50 = 49
  · rw [if_pos hstale, Nat.count_iff_forall_not]
    rintro i - ⟨hi, hfresh⟩
    rw [h.isFresh_iff] at hfresh
    omega
  · rw [if_neg hstale]
    have hturn : ∀ i, (i % 100 = a ∧ IsFresh clock i) ↔ i ≡ a [MOD 100] := by
      intro i
      rw [h.isFresh_iff, Nat.ModEq, Nat.mod_eq_of_lt ha]
      omega
    have hcount := Nat.count_modEq_card (b := n) (r := 100) (by decide) a
    rw [Nat.mod_eq_of_lt ha] at hcount
    rw [← hcount]
    apply le_antisymm
    · exact Nat.count_mono_left fun i _ => (hturn i).mp
    · exact Nat.count_mono_left fun i _ => (hturn i).mpr

/-- The turns of the first `r` traders of a pool, less those with stale quotes. -/
theorem sum_turns {r : Nat} (hr : r < 100) :
    (∑ a ∈ Finset.range 100, if a % 50 = 49 then 0 else if a < r then 1 else 0) = r - r / 50 := by
  have hall : ∀ r : Fin 100,
      (∑ a ∈ Finset.range 100, if a % 50 = 49 then 0 else if a < r.val then 1 else 0) =
        r.val - r.val / 50 := by
    decide +kernel
  exact hall ⟨r, hr⟩

/-- So of `n` rounds all but `n / 50` are fresh. -/
theorem OnTime.sum_freshRounds {clock : Nat → Reading} (h : OnTime clock) (n : Nat) :
    ∑ a ∈ Finset.range 100, freshRounds clock a n = n - n / 50 := by
  have heach : ∀ a ∈ Finset.range 100, freshRounds clock a n =
      (if a % 50 = 49 then 0 else 1) * (n / 100) +
        if a % 50 = 49 then 0 else if a < n % 100 then 1 else 0 := by
    intro a ha
    rw [h.freshRounds_eq (Finset.mem_range.mp ha)]
    split
    · rw [Nat.zero_mul]
    · rw [Nat.one_mul]
  have hpool : (∑ a ∈ Finset.range 100, if a % 50 = 49 then 0 else 1) = 98 := by decide +kernel
  rw [Finset.sum_congr rfl heach, Finset.sum_add_distrib, ← Finset.sum_mul, hpool,
    sum_turns (Nat.mod_lt n (by decide))]
  omega

/-- How many stakes the initial balance covers, at the least. -/
theorem coveredStakes_ge {a : Nat} (ha : a < 100) (hfresh : a % 50 ≠ 49) :
    86206 ≤ coveredStakes a ∧ (a % 50 ≠ 48 → 86207 ≤ coveredStakes a) := by
  have hall : ∀ a : Fin 100, a.val % 50 ≠ 49 →
      86206 ≤ coveredStakes a ∧ (a.val % 50 ≠ 48 → 86207 ≤ coveredStakes a) := by
    decide +kernel
  exact hall ⟨a, ha⟩ hfresh

/-- The balances cover all fresh bets of the first 8620648 events. -/
theorem OnTime.covered_iff {clock : Nat → Reading} (h : OnTime clock) (n : Nat) :
    (∀ a ∈ Finset.range 100, freshRounds clock a n ≤ coveredStakes a) ↔ n ≤ 8620648 := by
  constructor
  · intro hcovered
    have hfirst := hcovered 48 (by decide)
    have hstakes : coveredStakes 48 = 86206 := by decide
    rw [h.freshRounds_eq (by decide), if_neg (by decide), hstakes] at hfirst
    split at hfirst
    · omega
    · omega
  · intro hn a ha
    rw [h.freshRounds_eq (Finset.mem_range.mp ha)]
    split
    · exact Nat.zero_le _
    · rename_i hfresh
      have hstakes := coveredStakes_ge (Finset.mem_range.mp ha) hfresh
      have hlt := Finset.mem_range.mp ha
      split
      · omega
      · omega

/-- When the engine keeps up, the two percent with stale quotes are all that is rejected, up to
8620648 events and no further. -/
theorem rejected_eq_iff [FieldOrder] {timed : Nat → Reading} (h : OnTime timed)
    (eventCount : UInt64) (warmup : Nat → Reading) :
    (runStandaloneBenchmark eventCount warmup timed).rejected = eventCount.toNat / 50 ↔
      eventCount.toNat ≤ 8620648 := by
  have hbooked := booked_runStandaloneBenchmark eventCount warmup timed
  have haccepted := hbooked.accepted
  have htotal := hbooked.total
  have hfresh := h.sum_freshRounds eventCount.toNat
  have hle : ∀ a ∈ Finset.range 100, acceptedRounds timed a eventCount.toNat ≤
      freshRounds timed a eventCount.toNat := fun a _ => Nat.min_le_left _ _
  have hall := Finset.sum_eq_sum_iff_of_le hle
  have hcovered := h.covered_iff eventCount.toNat
  simp only [acceptedRounds, min_eq_left_iff] at hall
  rw [← hcovered, ← hall]
  unfold accountPoolSize acceptedRounds at haccepted
  omega

/-- A clock whose two readings are a millisecond apart. -/
def sampleClock (_ : Nat) : Reading where
  nowMs := 1787659200000
  decisionMs := 1787659200001
  now_range := by decide

section Sample

attribute [local instance] insertionOrder

/-- The most events of which no more are rejected. -/
theorem rejected_eq_iff_sample :
    (runStandaloneBenchmark 8620648 sampleClock sampleClock).rejected = 172412 := by
  have hclock : OnTime sampleClock := by
    intro i
    unfold sampleClock
    decide
  exact (rejected_eq_iff hclock 8620648 sampleClock).mpr (by decide)

end Sample

end Benchmark
end RiskEngine
end BettingPlatform
