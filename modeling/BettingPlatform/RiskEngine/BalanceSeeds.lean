import BettingPlatform.RiskEngine.Decisions
import BettingPlatform.RiskEngine.ResultSchema

/-!
# The engine's set-up

`main` reads the exposure cap, the demo balance and a list of seeds from the environment.
The list is cut at the commas, each item at its first colon, and an item without a colon is
passed over; an amount that `std::stoll` cannot read ends the process before it polls.  In
benchmark mode (`RISK_BENCHMARK_MODE` or an argument) `main` returns before any of this.

Main results:

- Theorem `stoll_intDigits`: a printed 64-bit integer is read back, whatever follows it.
- Theorem `seedBalancesFromEnv_eq_some_iff`: which lists are read, and what they leave in
  every balance cell.
- Theorem `readSeed_seedsText`: a printed list of seeds is read back.
- Theorem `setUp_reads`: from which environments the engine comes up, and with what.
-/

namespace BettingPlatform
namespace RiskEngine

/-! ## Integers of the environment -/

/-- `std::isspace` in the C locale. -/
def isspace (b : UInt8) : Bool :=
  b = 0x20 || (0x09 ≤ b && b ≤ 0x0D)

/-- The sign in front of a numeral, and the rest. -/
def signOf : Bytes → Bool × Bytes
  | [] => (false, [])
  | c :: cs =>
      if c = ascii '-' then (true, cs)
      else if c = ascii '+' then (false, cs)
      else (false, c :: cs)

/-- The value of a sign and digits. -/
def signedValue (negative : Bool) (digits : Bytes) : Int :=
  if negative then -digitsValue digits else digitsValue digits

/-- `std::stoll` in base 10; `none` when it throws.  What follows the digits is ignored. -/
def stoll (text : Bytes) : Option Int :=
  let (negative, rest) := signOf (text.dropWhile isspace)
  let digits := rest.takeWhile isDigit
  if digits = [] then none
  else if IsInt64 (signedValue negative digits) then some (signedValue negative digits)
  else none

/-- `env_i64_or` of a variable's value. -/
def envI64Or (value : Option Bytes) (fallback : Int) : Option Int :=
  match value with
  | none => some fallback
  | some text => stoll text

/-- `stoll` gives 64-bit integers. -/
theorem isInt64_of_stoll {text : Bytes} {n : Int} (h : stoll text = some n) : IsInt64 n := by
  unfold stoll at h
  split at h
  simp only at h
  split at h
  · contradiction
  · split at h
    · rename_i hrange
      rwa [Option.some.inj h] at hrange
    · contradiction

theorem takeWhile_append_of_head {p : UInt8 → Bool} {digits rest : Bytes}
    (hdigits : ∀ b ∈ digits, p b) (hrest : ∀ b ∈ rest.head?, p b = false) :
    (digits ++ rest).takeWhile p = digits := by
  rw [List.takeWhile_append_of_pos hdigits]
  cases rest with
  | nil => simp
  | cons b rest => simp [hrest b rfl]

/-- A digit is neither blank nor a sign. -/
theorem not_space_of_isDigit {d : UInt8} (hd : isDigit d) :
    isspace d = false ∧ d ≠ ascii '-' ∧ d ≠ ascii '+' := by
  have hall : ∀ n : Fin 256, isDigit (UInt8.ofNat n) → isspace (UInt8.ofNat n) = false ∧
      UInt8.ofNat n ≠ ascii '-' ∧ UInt8.ofNat n ≠ ascii '+' := by
    decide +kernel
  have hvalue := hall ⟨d.toNat, d.toNat_lt⟩
  rw [UInt8.ofNat_toNat] at hvalue
  exact hvalue hd

/-- The sign in front of a printed number, and its digits. -/
theorem signOf_natDigits (m : Nat) (rest : Bytes) :
    signOf ((natDigits m ++ rest).dropWhile isspace) = (false, natDigits m ++ rest) := by
  obtain ⟨d, ds, hds⟩ := List.exists_cons_of_ne_nil (natDigits_ne_nil m)
  obtain ⟨hspace, hminus, hplus⟩ :=
    not_space_of_isDigit (isDigit_of_mem_natDigits (by rw [hds]; exact List.mem_cons_self))
  rw [hds, List.cons_append, List.dropWhile_cons_of_neg (by simp [hspace])]
  simp [signOf, hminus, hplus]

/-- A printed 64-bit integer is read back, whatever follows it that is no digit. -/
theorem stoll_intDigits {n : Int} (hn : IsInt64 n) {rest : Bytes}
    (hrest : ∀ b ∈ rest.head?, isDigit b = false) : stoll (intDigits n ++ rest) = some n := by
  have htake : ∀ m, (natDigits m ++ rest).takeWhile isDigit = natDigits m :=
    fun m => takeWhile_append_of_head (fun b hb => isDigit_of_mem_natDigits hb) hrest
  cases n with
  | ofNat m =>
      have hvalue : signedValue false (natDigits m) = Int.ofNat m := by
        simp [signedValue]
      simp only [stoll, intDigits, signOf_natDigits, htake, natDigits_ne_nil, if_false, hvalue]
      rw [if_pos hn]
  | negSucc m =>
      have hspace : isspace (ascii '-') = false := by decide
      have hsign : signOf ((ascii '-' :: (natDigits (m + 1) ++ rest)).dropWhile isspace) =
          (true, natDigits (m + 1) ++ rest) := by
        rw [List.dropWhile_cons_of_neg (by simp [hspace])]
        simp [signOf]
      have hvalue : signedValue true (natDigits (m + 1)) = Int.negSucc m := by
        simp [signedValue, Int.negSucc_eq]
      simp only [stoll, intDigits, List.cons_append, hsign, htake, natDigits_ne_nil, if_false,
        hvalue]
      rw [if_pos hn]

/-! ## The list of seeds -/

/-- The items that `std::getline(stream, item, sep)` yields before it fails. -/
def getlines (sep : UInt8) : Bytes → List Bytes
  | [] => []
  | c :: cs =>
      if c = sep then [] :: getlines sep cs
      else
        match getlines sep cs with
        | [] => [[c]]
        | item :: items => (c :: item) :: items

/-- `item.substr(0, pos)` and `item.substr(pos + 1)` at the first colon. -/
def cutAtColon (item : Bytes) : Option (Bytes × Bytes) :=
  match item.dropWhile fun c => c ≠ ascii ':' with
  | [] => none
  | _ :: amount => some (item.takeWhile fun c => c ≠ ascii ':', amount)

/-- The body of the loop over the items. -/
def seedItem (s : Accounts) (item : Bytes) : Option Accounts :=
  match cutAtColon item with
  | none => some s
  | some (account, amount) => (stoll amount).map (s.setBalance account)

/-- `seed_balances_from_env`; `none` when an amount cannot be read. -/
def seedBalancesFromEnv (s : Accounts) (defaultBalance : Int) (seeds : Option Bytes) :
    Option Accounts :=
  let s := s.setBalance (utf8 "demo-account") defaultBalance
  match seeds with
  | none => some s
  | some text => (getlines (ascii ',') text).foldlM seedItem s

/-- The variables `main` sets the engine up from. -/
structure Environment where
  saecCapCents : Option Bytes
  demoBalanceCents : Option Bytes
  riskBalanceSeeds : Option Bytes

/-- The cap and the accounts of the engine that `main` constructs and seeds; `none` when an
exception ends the process. -/
def Environment.setUp (env : Environment) : Option (Int × Accounts) := do
  let exposureCap ← envI64Or env.saecCapCents 1000000
  let defaultBalance ← envI64Or env.demoBalanceCents 100000
  if exposureCap ≤ 0 then none
  else
    let accounts ← seedBalancesFromEnv .fresh defaultBalance env.riskBalanceSeeds
    some (exposureCap, accounts)

/-! ## Which lists are read -/

/-- The accounts and amounts in a list of seeds. -/
def seedTexts (text : Bytes) : List (Bytes × Bytes) :=
  (getlines (ascii ',') text).filterMap cutAtColon

/-- One of them, with its amount read. -/
def readSeed (seed : Bytes × Bytes) : Option (Bytes × Int) :=
  (stoll seed.2).map fun balance => (seed.1, balance)

/-- Seeds stored one after the other. -/
def Accounts.seedAll (s : Accounts) (seeds : List (Bytes × Int)) : Accounts :=
  seeds.foldl (fun s seed => s.setBalance seed.1 seed.2) s

/-- The loop over the items seeds what has a colon, in the order of the list. -/
theorem foldlM_seedItem_eq_some_iff {items : List Bytes} {s t : Accounts} :
    items.foldlM seedItem s = some t ↔
      ∃ seeds, (items.filterMap cutAtColon).mapM readSeed = some seeds ∧ t = s.seedAll seeds := by
  induction items generalizing s with
  | nil => simp [Accounts.seedAll, eq_comm]
  | cons item items ih =>
      rw [List.foldlM_cons]
      cases hcut : cutAtColon item with
      | none => simpa [seedItem, hcut] using ih
      | some cut =>
          obtain ⟨account, amount⟩ := cut
          rw [List.filterMap_cons_some hcut, List.mapM_cons]
          cases hread : stoll amount with
          | none => simp [seedItem, hcut, readSeed, hread]
          | some balance =>
              cases hrest : (items.filterMap cutAtColon).mapM readSeed with
              | none => simp [seedItem, hcut, readSeed, hread, ih, hrest]
              | some seeds =>
                  simp [seedItem, hcut, readSeed, hread, ih, hrest, Accounts.seedAll]

/-- The last seed of an account counts. -/
theorem seedAll_balances (s : Accounts) (seeds : List (Bytes × Int)) (account : Bytes) :
    (s.seedAll seeds).balances account =
      (((seeds.filter fun seed => seed.1 = account).getLast?.map Prod.snd).or
        (s.balances account)) := by
  induction seeds using List.reverseRecOn generalizing s with
  | nil => rfl
  | append_singleton seeds seed ih =>
      have hlast : s.seedAll (seeds ++ [seed]) = (s.seedAll seeds).setBalance seed.1 seed.2 := by
        rw [Accounts.seedAll, List.foldl_append]
        rfl
      rw [hlast, List.filter_append]
      by_cases haccount : seed.1 = account
      · subst haccount
        simp
      · rw [Accounts.setBalance_balances_of_ne _ _ (Ne.symm haccount)]
        simpa [haccount] using ih s

theorem seedAll_exposure (s : Accounts) (seeds : List (Bytes × Int)) :
    (s.seedAll seeds).exposure = s.exposure := by
  induction seeds generalizing s with
  | nil => rfl
  | cons seed seeds ih => exact ih (s.setBalance seed.1 seed.2)

/-! ## Printed lists -/

/-- One seed, as the list has it. -/
def seedText (seed : Bytes × Int) : Bytes :=
  seed.1 ++ ascii ':' :: intDigits seed.2

/-- A list of seeds with commas between them. -/
def seedsText : List (Bytes × Int) → Bytes
  | [] => []
  | [seed] => seedText seed
  | seed :: seeds => seedText seed ++ ascii ',' :: seedsText seeds

/-- An account whose name does not break the list apart. -/
def Listable (account : Bytes) : Prop :=
  ascii ',' ∉ account ∧ ascii ':' ∉ account

/-- `getline` cuts at the first separator. -/
theorem getlines_append_sep {sep : UInt8} {item : Bytes} (hitem : sep ∉ item) (rest : Bytes) :
    getlines sep (item ++ sep :: rest) = item :: getlines sep rest := by
  induction item with
  | nil => simp [getlines]
  | cons c item ih =>
      rw [List.mem_cons, not_or] at hitem
      rw [List.cons_append, getlines, if_neg (Ne.symm hitem.1), ih hitem.2]

/-- An item without a separator is the last one. -/
theorem getlines_of_notMem {sep : UInt8} {item : Bytes} (hitem : sep ∉ item) (hne : item ≠ []) :
    getlines sep item = [item] := by
  induction item with
  | nil => contradiction
  | cons c item ih =>
      rw [List.mem_cons, not_or] at hitem
      rw [getlines, if_neg (Ne.symm hitem.1)]
      cases item with
      | nil => rfl
      | cons d item => rw [ih hitem.2 (by simp)]

theorem comma_notMem_intDigits (n : Int) : ascii ',' ∉ intDigits n := by
  obtain ⟨sign, digits, hdigits, hsign, -, hall⟩ := intDigits_cases n
  rw [hdigits, List.mem_append, not_or]
  constructor
  · rcases hsign with rfl | rfl <;> decide
  · intro hcomma
    exact absurd (hall _ hcomma) (by decide)

/-- A listed seed holds no comma, so that the list falls apart where it was joined. -/
theorem comma_notMem_seedText {seed : Bytes × Int} (hseed : Listable seed.1) :
    ascii ',' ∉ seedText seed := by
  rw [seedText, List.mem_append, List.mem_cons, not_or, not_or]
  exact ⟨hseed.1, by decide, comma_notMem_intDigits seed.2⟩

/-- The cut at the colon takes a written seed apart again. -/
theorem cutAtColon_seedText {seed : Bytes × Int} (hseed : Listable seed.1) :
    cutAtColon (seedText seed) = some (seed.1, intDigits seed.2) := by
  have hplain : ∀ c ∈ seed.1, decide (c ≠ ascii ':') = true := by
    intro c hc
    exact decide_eq_true fun h => hseed.2 (h ▸ hc)
  rw [cutAtColon, seedText, List.dropWhile_append_of_pos hplain,
    List.takeWhile_append_of_pos hplain]
  simp

/-- So does the cut at the commas with the whole list. -/
theorem getlines_seedsText {seeds : List (Bytes × Int)} (hseeds : ∀ seed ∈ seeds, Listable seed.1) :
    getlines (ascii ',') (seedsText seeds) = seeds.map seedText := by
  induction seeds with
  | nil => rfl
  | cons seed seeds ih =>
      have hcomma := comma_notMem_seedText (hseeds seed List.mem_cons_self)
      cases seeds with
      | nil =>
          rw [seedsText, getlines_of_notMem hcomma (by simp [seedText])]
          rfl
      | cons next seeds =>
          rw [seedsText, getlines_append_sep hcomma,
            ih fun s hs => hseeds s (List.mem_cons_of_mem _ hs)]
          · rfl
          · simp

/-- A printed list is read back. -/
theorem readSeed_seedsText {seeds : List (Bytes × Int)}
    (hseeds : ∀ seed ∈ seeds, Listable seed.1 ∧ IsInt64 seed.2) :
    (seedTexts (seedsText seeds)).mapM readSeed = some seeds := by
  rw [seedTexts, getlines_seedsText fun seed hseed => (hseeds seed hseed).1]
  induction seeds with
  | nil => rfl
  | cons seed seeds ih =>
      obtain ⟨hlistable, hrange⟩ := hseeds seed List.mem_cons_self
      have hread : stoll (intDigits seed.2) = some seed.2 := by
        have hend := @stoll_intDigits seed.2 hrange [] (by simp)
        rwa [List.append_nil] at hend
      rw [List.map_cons, List.filterMap_cons_some (cutAtColon_seedText hlistable), List.mapM_cons,
        ih fun s hs => hseeds s (List.mem_cons_of_mem _ hs)]
      simp [readSeed, hread]

/-! ## The set-up -/

/-- Seeds that fit 64 bits leave accounts that do. -/
theorem fits_seedAll {s : Accounts} (hs : s.Fits) {seeds : List (Bytes × Int)}
    (hseeds : ∀ seed ∈ seeds, IsInt64 seed.2) : (s.seedAll seeds).Fits where
  balances := by
    intro account balance hbalance
    rw [seedAll_balances, Option.or_eq_some_iff] at hbalance
    rcases hbalance with hlast | ⟨-, hbefore⟩
    · obtain ⟨seed, hseed, rfl⟩ := Option.map_eq_some_iff.mp hlast
      exact hseeds seed (List.mem_of_mem_filter (List.mem_of_getLast? hseed))
    · exact hs.balances hbefore
  exposure := by
    intro account
    rw [seedAll_exposure]
    exact hs.exposure account

/-- Every seed of a list that is read fits 64 bits. -/
theorem isInt64_of_mapM_readSeed {texts : List (Bytes × Bytes)} {seeds : List (Bytes × Int)}
    (h : texts.mapM readSeed = some seeds) : ∀ seed ∈ seeds, IsInt64 seed.2 := by
  induction texts generalizing seeds with
  | nil =>
      obtain rfl : [] = seeds := by simpa using h
      simp
  | cons text texts ih =>
      rw [List.mapM_cons] at h
      obtain ⟨seed, hseed, h⟩ := Option.bind_eq_some_iff.mp h
      obtain ⟨rest, hrest, h⟩ := Option.bind_eq_some_iff.mp h
      obtain rfl : seed :: rest = seeds := by simpa using h
      obtain ⟨balance, hbalance, rfl⟩ := Option.map_eq_some_iff.mp hseed
      refine List.forall_mem_cons.mpr ⟨isInt64_of_stoll hbalance, ih hrest⟩

/-- The seeds that a list and the demo balance amount to. -/
def Environment.seeds (env : Environment) : Option (List (Bytes × Int)) := do
  let defaultBalance ← envI64Or env.demoBalanceCents 100000
  let listed ← (seedTexts (env.riskBalanceSeeds.getD [])).mapM readSeed
  some ((utf8 "demo-account", defaultBalance) :: listed)

/-- The demo account is seeded first, so that an item of the list may overwrite it. -/
theorem seedBalancesFromEnv_eq_some_iff {s t : Accounts} {defaultBalance : Int}
    {seeds : Option Bytes} :
    seedBalancesFromEnv s defaultBalance seeds = some t ↔
      ∃ listed, (seedTexts (seeds.getD [])).mapM readSeed = some listed ∧
        t = s.seedAll ((utf8 "demo-account", defaultBalance) :: listed) := by
  cases seeds with
  | none => simp [seedBalancesFromEnv, seedTexts, getlines, Accounts.seedAll, eq_comm]
  | some text => exact foldlM_seedItem_eq_some_iff

/-- The process comes up exactly when the cap is a positive integer and every amount can be
read, and then with these seeds stored one after the other. -/
theorem setUp_eq_some_iff {env : Environment} {cap : Int} {accounts : Accounts} :
    env.setUp = some (cap, accounts) ↔
      envI64Or env.saecCapCents 1000000 = some cap ∧ 0 < cap ∧
        ∃ seeds, env.seeds = some seeds ∧ accounts = Accounts.fresh.seedAll seeds := by
  unfold Environment.setUp Environment.seeds
  cases hcap : envI64Or env.saecCapCents 1000000 with
  | none => simp
  | some exposureCap =>
      cases hbalance : envI64Or env.demoBalanceCents 100000 with
      | none => simp
      | some defaultBalance =>
          simp only [Option.bind_eq_bind, Option.bind_some, Option.some.injEq]
          split
          · rename_i hneg
            constructor
            · intro h
              contradiction
            · rintro ⟨rfl, hpos, -⟩
              omega
          · rename_i hpos
            simp only [Option.bind_eq_some_iff, seedBalancesFromEnv_eq_some_iff,
              Option.some.injEq, Prod.mk.injEq]
            constructor
            · rintro ⟨t, ⟨listed, hlisted, rfl⟩, rfl, rfl⟩
              exact ⟨rfl, by omega, _, ⟨listed, hlisted, rfl⟩, rfl⟩
            · rintro ⟨rfl, -, _, ⟨listed, hlisted, rfl⟩, rfl⟩
              exact ⟨_, ⟨listed, hlisted, rfl⟩, rfl, rfl⟩

/-- An integer of the environment fits 64 bits when its default does. -/
theorem isInt64_of_envI64Or {value : Option Bytes} {fallback n : Int} (hfallback : IsInt64 fallback)
    (h : envI64Or value fallback = some n) : IsInt64 n := by
  cases value with
  | none =>
      obtain rfl := Option.some.inj h
      exact hfallback
  | some text => exact isInt64_of_stoll h

/-- All that the environment seeds fits 64 bits. -/
theorem isInt64_of_seeds {env : Environment} {seeds : List (Bytes × Int)}
    (h : env.seeds = some seeds) : ∀ seed ∈ seeds, IsInt64 seed.2 := by
  obtain ⟨defaultBalance, hdefault, h⟩ := Option.bind_eq_some_iff.mp h
  obtain ⟨listed, hlisted, h⟩ := Option.bind_eq_some_iff.mp h
  obtain rfl := Option.some.inj h
  refine List.forall_mem_cons.mpr ⟨?_, isInt64_of_mapM_readSeed hlisted⟩
  exact isInt64_of_envI64Or ⟨by decide, by decide⟩ hdefault

/-- The engine that comes up has a positive cap, no exposure and 64-bit cells. -/
theorem setUp_fits {env : Environment} {cap : Int} {accounts : Accounts}
    (h : env.setUp = some (cap, accounts)) :
    0 < cap ∧ IsInt64 cap ∧ accounts.Fits ∧ ∀ account, accounts.exposure account = 0 := by
  obtain ⟨hcap, hpos, seeds, hseeds, rfl⟩ := setUp_eq_some_iff.mp h
  have hzero : IsInt64 0 := by decide
  have hfresh : Accounts.fresh.Fits :=
    { balances := fun hbalance => by contradiction
      exposure := fun _ => hzero }
  refine ⟨hpos, isInt64_of_envI64Or ⟨by decide, by decide⟩ hcap,
    fits_seedAll hfresh (isInt64_of_seeds hseeds), fun account => ?_⟩
  rw [seedAll_exposure]
  rfl

/-- For every environment, outside of benchmark mode: the process comes up exactly when the cap
is a positive 64-bit integer and the demo balance and every listed amount can be read; each
balance cell then holds the last amount that is listed for its account, the demo balance
counting as listed first, for the demo account, so that a listed amount overrides it; and there
is no other cell.  A printed list of seeds is read back. -/
theorem setUp_reads (env : Environment) :
    ((∃ cap accounts, env.setUp = some (cap, accounts)) ↔
      (∃ cap, envI64Or env.saecCapCents 1000000 = some cap ∧ 0 < cap) ∧ env.seeds.isSome) ∧
    (∀ cap accounts, env.setUp = some (cap, accounts) →
      accounts.Fits ∧ (∀ account, accounts.exposure account = 0) ∧
        ∃ seeds, env.seeds = some seeds ∧ ∀ account, accounts.balances account =
          (seeds.filter fun seed => seed.1 = account).getLast?.map Prod.snd) ∧
    ∀ seeds, (∀ seed ∈ seeds, Listable seed.1 ∧ IsInt64 seed.2) →
      { env with riskBalanceSeeds := some (seedsText seeds) }.seeds =
        (envI64Or env.demoBalanceCents 100000).map fun defaultBalance =>
          (utf8 "demo-account", defaultBalance) :: seeds := by
  refine ⟨?_, fun cap accounts h => ?_, fun seeds hseeds => ?_⟩
  · simp only [setUp_eq_some_iff, Option.isSome_iff_exists]
    constructor
    · rintro ⟨cap, accounts, hcap, hpos, seeds, hseeds, -⟩
      exact ⟨⟨cap, hcap, hpos⟩, seeds, hseeds⟩
    · rintro ⟨⟨cap, hcap, hpos⟩, seeds, hseeds⟩
      exact ⟨cap, _, hcap, hpos, seeds, hseeds, rfl⟩
  · obtain ⟨-, -, hfits, hexposure⟩ := setUp_fits h
    obtain ⟨-, -, seeds, hseeds, rfl⟩ := setUp_eq_some_iff.mp h
    refine ⟨hfits, hexposure, seeds, hseeds, fun account => ?_⟩
    rw [seedAll_balances, show Accounts.fresh.balances account = none from rfl, Option.or_none]
  · simp only [Environment.seeds, Option.getD_some, readSeed_seedsText hseeds, Option.bind_eq_bind,
      Option.bind_some]
    cases envI64Or env.demoBalanceCents 100000 <;> rfl

end RiskEngine
end BettingPlatform
