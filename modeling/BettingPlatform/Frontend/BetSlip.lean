import BettingPlatform.Foundations.Runs
import BettingPlatform.Frontend.OddsMarkets

/-!
# The bet slip

`BetSlipService` keeps one state for the slip.  The user selects, changes the stake, clears and
submits; a submit sends a request, and the response of each request arrives later, in any
order, and updates whatever state is current then.

Beside the slip the model keeps the requests that were sent with their answers, and which
answer the current status comes from.  No operation reads these.

Main results:

- Theorem `attributed_iff_careful`: what one step has to meet so that the slip still shows the
  request its status comes from.
- Theorem `slip_attributed`: runs whose steps meet it, and the first step that does not.
-/

namespace BettingPlatform
namespace Frontend

open JavaScript Python Runs

/-! ## The service -/

/-- `BetExecutionStatus`. -/
inductive BetExecutionStatus
  | empty
  | pending
  | accepted
  | rejected
  | error
deriving DecidableEq, Repr

/-- `BetSlipSelection`. -/
abbrev BetSlipSelection := MarketSelectionView

/-- `BetSubmissionRequest`. -/
structure BetSubmissionRequest where
  matchId : String
  marketId : String
  selectionId : String
  stake : String
  potentialPayout : String
  timestamp : String
deriving DecidableEq, Repr

/-- `BetSubmissionResponse`. -/
structure BetSubmissionResponse where
  eventId : String
  idempotencyKey : String
  topic : String
  status : String
deriving DecidableEq, Repr

/-- `BetSlipState`; a message may be the `detail` of an error response. -/
structure BetSlipState where
  selection : Option BetSlipSelection
  stakeDollars : Number
  status : BetExecutionStatus
  message : Option Json
  eventId : Option String
  idempotencyKey : Option String

namespace BetSlipState

/-- The initial state, and the state after `clear`. -/
def initial : BetSlipState where
  selection := none
  stakeDollars := .ofInt 10
  status := .empty
  message := none
  eventId := none
  idempotencyKey := none

/-- `stakeCents`. -/
def stakeCents (state : BetSlipState) : Number :=
  ((state.stakeDollars.orElse (.ofInt 0)).mul (.ofInt 100)).round

/-- `potentialPayout`. -/
def potentialPayout (state : BetSlipState) : Number :=
  match state.selection with
  | some selection => state.stakeDollars.mul selection.odds
  | none => .ofInt 0

/-- `select`. -/
def select (state : BetSlipState) (selection : BetSlipSelection) : BetSlipState :=
  { state with
    selection := some selection
    status := .empty
    message := none
    eventId := none
    idempotencyKey := none }

/-- `updateStake`. -/
def updateStake (state : BetSlipState) (value : Number) : BetSlipState :=
  { state with stakeDollars := if value.isFinite then value else .ofInt 0 }

/-- The request of `submit`; `none` is its early return. -/
def request (numberText : Number → String) (timestamp : String) (state : BetSlipState) :
    Option BetSubmissionRequest :=
  match state.selection with
  | none => none
  | some selection =>
      if state.stakeCents.le (.ofInt 0) then none
      else
        some
          { matchId := selection.matchId
            marketId := selection.marketId
            selectionId := selection.selectionId
            stake := state.stakeDollars.toFixed numberText 2
            potentialPayout := state.potentialPayout.toFixed numberText 2
            timestamp }

/-- The early return of `submit`. -/
def invalid (state : BetSlipState) : BetSlipState :=
  { state with status := .error, message := some (.str "Select odds and enter a valid stake.") }

/-- `submit` up to `http.post`. -/
def pending (state : BetSlipState) : BetSlipState :=
  { state with status := .pending, message := some (.str "Submitting bet to risk engine...") }

/-- The `next` handler of `submit`. -/
def next (state : BetSlipState) (response : BetSubmissionResponse) : BetSlipState :=
  { state with
    status := .accepted
    message := some (.str "Bet submitted and accepted for processing.")
    eventId := some response.eventId
    idempotencyKey := some response.idempotencyKey }

/-- `error?.error?.detail ?? ...`. -/
def errorMessage : Option Json → Json
  | none | some .null => .str "Bet was rejected or could not be submitted."
  | some detail => detail

/-- The `error` handler of `submit`. -/
def error (state : BetSlipState) (detail : Option Json) : BetSlipState :=
  { state with status := .rejected, message := some (errorMessage detail) }

end BetSlipState

/-! ## The slip and its requests -/

/-- How the server answered a request. -/
inductive SlipAnswer
  | success (response : BetSubmissionResponse)
  | error (detail : Option Json)

/-- A request that was sent. -/
structure SentRequest where
  request : BetSubmissionRequest
  answer : Option SlipAnswer

/-- The slip, what it has sent, and the request whose answer the status comes from. -/
structure SlipClient where
  slip : BetSlipState
  requests : List SentRequest
  shown : Option Nat

/-- What happens next. -/
inductive SlipLabel
  | select (selection : BetSlipSelection)
  | updateStake (value : Number)
  | clear
  /-- `submit`, at the time `new Date().toISOString()`. -/
  | submit (timestamp : String)
  /-- The response of a request arrives. -/
  | respond (index : Nat) (answer : SlipAnswer)

/-- No request has been sent. -/
def SlipClient.start : SlipClient where
  slip := .initial
  requests := []
  shown := none

/-- The handler of an answer. -/
def BetSlipState.receive (state : BetSlipState) : SlipAnswer → BetSlipState
  | .success response => state.next response
  | .error detail => state.error detail

section Steps

variable (numberText : Number → String)

/-- One step; a request is answered once. -/
def SlipClient.step (client : SlipClient) : SlipLabel → Option SlipClient
  | .select selection => some { client with slip := client.slip.select selection, shown := none }
  | .updateStake value => some { client with slip := client.slip.updateStake value }
  | .clear => some { client with slip := .initial, shown := none }
  | .submit timestamp =>
      match client.slip.request numberText timestamp with
      | none => some { client with slip := client.slip.invalid, shown := none }
      | some request =>
          some
            { slip := client.slip.pending
              requests := client.requests ++ [⟨request, none⟩]
              shown := none }
  | .respond index answer =>
      match client.requests[index]? with
      | some ⟨request, none⟩ =>
          some
            { slip := client.slip.receive answer
              requests := client.requests.set index ⟨request, some answer⟩
              shown := some index }
      | _ => none

/-- The request is for this selection. -/
def BetSubmissionRequest.IsFor (request : BetSubmissionRequest) (selection : BetSlipSelection) :
    Prop :=
  request.matchId = selection.matchId ∧ request.marketId = selection.marketId ∧
    request.selectionId = selection.selectionId

/-- The request has the selection and the stake of the slip. -/
def BetSubmissionRequest.Matches (request : BetSubmissionRequest) (slip : BetSlipState) : Prop :=
  (∃ selection, slip.selection = some selection ∧ request.IsFor selection) ∧
    request.stake = slip.stakeDollars.toFixed numberText 2

/-- A confirmation shows the selection and the stake of the request that was answered with its
event id, and a rejection shown for a selection comes from a request for that selection. -/
structure SlipClient.Attributed (client : SlipClient) : Prop where
  accepted : client.slip.status = .accepted → ∀ eventId, client.slip.eventId = some eventId →
    ∃ index request response, client.shown = some index ∧
      client.requests[index]? = some ⟨request, some (.success response)⟩ ∧
      response.eventId = eventId ∧ request.Matches numberText client.slip
  rejected : client.slip.status = .rejected → ∀ selection, client.slip.selection = some selection →
    ∃ index request detail, client.shown = some index ∧
      client.requests[index]? = some ⟨request, some (.error detail)⟩ ∧ request.IsFor selection

/-- A response arrives while the slip shows what was requested, and the stake of a shown
confirmation is not changed. -/
def SlipClient.Careful (client : SlipClient) : SlipLabel → Prop
  | .respond index (.success _) => ∀ sent, client.requests[index]? = some sent →
      sent.request.Matches numberText client.slip
  | .respond index (.error _) => ∀ sent, client.requests[index]? = some sent →
      ∀ selection, client.slip.selection = some selection → sent.request.IsFor selection
  | .updateStake value => client.slip.status = .accepted → client.slip.eventId.isSome →
      (client.slip.updateStake value).stakeDollars.toFixed numberText 2 =
        client.slip.stakeDollars.toFixed numberText 2
  | _ => True

end Steps

/-! ## What a step does to the attribution -/

variable {numberText : Number → String} {client client' : SlipClient} {label : SlipLabel}

/-- A slip that shows no decision is attributed. -/
theorem attributed_of_quiet (haccepted : client.slip.status ≠ .accepted)
    (hrejected : client.slip.status ≠ .rejected) : client.Attributed numberText :=
  ⟨fun h => absurd h haccepted, fun h => absurd h hrejected⟩

/-- An empty slip is. -/
theorem attributed_of_empty (h : client.slip.status = .empty) : client.Attributed numberText :=
  attributed_of_quiet (by simp [h]) (by simp [h])

/-- What a response that is taken leaves behind. -/
theorem respond_eq_some {index : Nat} {answer : SlipAnswer}
    (h : client.step numberText (.respond index answer) = some client') :
    ∃ request, client.requests[index]? = some ⟨request, none⟩ ∧
      client'.requests[index]? = some ⟨request, some answer⟩ ∧
      client'.slip = client.slip.receive answer ∧ client'.shown = some index := by
  simp only [SlipClient.step] at h
  split at h
  · rename_i request hrequest
    obtain rfl := Option.some.inj h
    have hlt : index < client.requests.length := (List.getElem?_eq_some_iff.mp hrequest).1
    exact ⟨request, hrequest, List.getElem?_set_self hlt, rfl, rfl⟩
  · contradiction

/-- A confirmation stays attributed exactly when it arrives for what the slip shows. -/
theorem attributed_success_iff {index : Nat} {response : BetSubmissionResponse}
    (h : client.step numberText (.respond index (.success response)) = some client') :
    client'.Attributed numberText ↔
      client.Careful numberText (.respond index (.success response)) := by
  obtain ⟨request, hbefore, hafter, hslip, hshown⟩ := respond_eq_some h
  have hmatches : ∀ r : BetSubmissionRequest, r.Matches numberText client'.slip ↔
      r.Matches numberText client.slip := by
    intro r
    rw [hslip]
    rfl
  have hcareful : client.Careful numberText (.respond index (.success response)) ↔
      request.Matches numberText client.slip := by
    simp [SlipClient.Careful, hbefore]
  have hstatus : client'.slip.status = .accepted := by rw [hslip]; rfl
  have heventId : client'.slip.eventId = some response.eventId := by rw [hslip]; rfl
  rw [hcareful, ← hmatches]
  constructor
  · intro hattributed
    obtain ⟨shown, request', response', hshown', hrequest', -, hmatch⟩ :=
      hattributed.accepted hstatus _ heventId
    obtain rfl := Option.some.inj (hshown.symm.trans hshown')
    have hsame := Option.some.inj (hafter.symm.trans hrequest')
    rw [(SentRequest.mk.inj hsame).1]
    exact hmatch
  · intro hmatch
    refine ⟨fun _ eventId hid => ?_, fun hrejected => ?_⟩
    · exact ⟨index, request, response, hshown, hafter, Option.some.inj (heventId.symm.trans hid),
        hmatch⟩
    · rw [hstatus] at hrejected
      contradiction

/-- A rejection stays attributed exactly when it arrives for the shown selection, or while none
is shown. -/
theorem attributed_error_iff {index : Nat} {detail : Option Json}
    (h : client.step numberText (.respond index (.error detail)) = some client') :
    client'.Attributed numberText ↔
      client.Careful numberText (.respond index (.error detail)) := by
  obtain ⟨request, hbefore, hafter, hslip, hshown⟩ := respond_eq_some h
  have hselection : client'.slip.selection = client.slip.selection := by rw [hslip]; rfl
  have hstatus : client'.slip.status = .rejected := by rw [hslip]; rfl
  have hcareful : client.Careful numberText (.respond index (.error detail)) ↔
      ∀ selection, client'.slip.selection = some selection → request.IsFor selection := by
    simp [SlipClient.Careful, hbefore, hselection]
  rw [hcareful]
  constructor
  · intro hattributed selection hshows
    obtain ⟨shown, request', detail', hshown', hrequest', hfor⟩ :=
      hattributed.rejected hstatus selection hshows
    obtain rfl := Option.some.inj (hshown.symm.trans hshown')
    have hsame := Option.some.inj (hafter.symm.trans hrequest')
    rw [(SentRequest.mk.inj hsame).1]
    exact hfor
  · intro hfor
    refine ⟨fun haccepted => ?_, fun _ selection hshows => ?_⟩
    · rw [hstatus] at haccepted
      contradiction
    · exact ⟨index, request, detail, hshown, hafter, hfor selection hshows⟩

/-- A change of the stake leaves a shown confirmation attributed exactly when the text of the
stake stays the same. -/
theorem attributed_updateStake_iff {value : Number} (hattributed : client.Attributed numberText)
    (h : client.step numberText (.updateStake value) = some client') :
    client'.Attributed numberText ↔ client.Careful numberText (.updateStake value) := by
  obtain rfl := Option.some.inj h
  constructor
  · intro hattributed' haccepted hshown
    obtain ⟨eventId, heventId⟩ := Option.isSome_iff_exists.mp hshown
    obtain ⟨index, request, response, hindex, hrequest, -, -, hstake⟩ :=
      hattributed.accepted haccepted eventId heventId
    obtain ⟨index', request', response', hindex', hrequest', -, -, hstake'⟩ :=
      hattributed'.accepted haccepted eventId heventId
    obtain rfl := Option.some.inj (hindex.symm.trans hindex')
    have hsame := Option.some.inj (hrequest.symm.trans hrequest')
    rw [← hstake, (SentRequest.mk.inj hsame).1]
    exact hstake'.symm
  · intro hcareful
    refine ⟨fun haccepted eventId heventId => ?_, hattributed.rejected⟩
    obtain ⟨index, request, response, hindex, hrequest, hid, hselection, hstake⟩ :=
      hattributed.accepted haccepted eventId heventId
    have hsame := hcareful haccepted (Option.isSome_iff_exists.mpr ⟨eventId, heventId⟩)
    exact ⟨index, request, response, hindex, hrequest, hid, hselection, hstake.trans hsame.symm⟩

/-- A submit leaves the slip pending or in error. -/
theorem submit_status {timestamp : String}
    (h : client.step numberText (.submit timestamp) = some client') :
    client'.slip.status = .error ∨ client'.slip.status = .pending := by
  simp only [SlipClient.step] at h
  split at h
  · obtain rfl := Option.some.inj h
    exact .inl rfl
  · obtain rfl := Option.some.inj h
    exact .inr rfl

/-- One step from an attributed slip leads to an attributed slip exactly when it is careful. -/
theorem attributed_iff_careful (hattributed : client.Attributed numberText)
    (h : client.step numberText label = some client') :
    client'.Attributed numberText ↔ client.Careful numberText label := by
  cases label with
  | select selection =>
      obtain rfl := Option.some.inj h
      exact iff_of_true (attributed_of_empty rfl) trivial
  | updateStake value => exact attributed_updateStake_iff hattributed h
  | clear =>
      obtain rfl := Option.some.inj h
      exact iff_of_true (attributed_of_empty rfl) trivial
  | submit timestamp =>
      refine iff_of_true ?_ trivial
      rcases submit_status h with hstatus | hstatus
      · exact attributed_of_quiet (by simp [hstatus]) (by simp [hstatus])
      · exact attributed_of_quiet (by simp [hstatus]) (by simp [hstatus])
  | respond index answer =>
      cases answer with
      | success response => exact attributed_success_iff h
      | error detail => exact attributed_error_iff h

/-- In every run whose steps are careful the slip is attributed in every state, and after such a
run the next step keeps it so exactly when it is careful. -/
theorem slip_attributed (numberText : Number → String) (client : SlipClient)
    (hrun : Reaches (SlipClient.step numberText) (SlipClient.Careful numberText) .start client) :
    client.Attributed numberText ∧
      ∀ label client', client.step numberText label = some client' →
        (client'.Attributed numberText ↔ client.Careful numberText label) := by
  have hattributed : client.Attributed numberText :=
    hrun.invariant (attributed_of_empty rfl) fun hbefore hcareful hstep =>
      (attributed_iff_careful hbefore hstep).mpr hcareful
  exact ⟨hattributed, fun _ _ hstep => attributed_iff_careful hattributed hstep⟩

/-! ## Two runs -/

/-- A selection of some match at even odds of 2. -/
def sampleSelection (matchId : String) : BetSlipSelection where
  key := Odds.joinIds matchId "full-time-result" "home"
  matchId := matchId
  marketId := "full-time-result"
  selectionId := "home"
  sequence := 1
  timestampMs := 1787659200000
  odds := .ofInt 2
  previousOdds := none
  direction := .flat
  updatedAt := 1787659200000

/-- The answer to a published bet. -/
def sampleResponse : BetSubmissionResponse :=
  ⟨"e", "k", "bets-submitted", "published"⟩

/-- What the slip sends for a match. -/
def sampleBet (matchId : String) : BetSubmissionRequest :=
  ⟨matchId, "full-time-result", "home", "10.00", "20.00", "2026-08-25T12:00:00.000Z"⟩

/-- The request of the example. -/
theorem sample_request (slip : BetSlipState) (matchId : String)
    (hselection : slip.selection = some (sampleSelection matchId))
    (hstake : slip.stakeDollars = .ofInt 10) :
    slip.request (fun _ => "") "2026-08-25T12:00:00.000Z" = some (sampleBet matchId) := by
  have hcents : slip.stakeCents.le (.ofInt 0) = false := by
    rw [BetSlipState.stakeCents, hstake]
    decide
  have hpayout : slip.potentialPayout = (Number.ofInt 10).mul (.ofInt 2) := by
    rw [BetSlipState.potentialPayout, hselection, hstake]
    rfl
  have htexts : (Number.ofInt 10).toFixed (fun _ => "") 2 = "10.00" ∧
      ((Number.ofInt 10).mul (.ofInt 2)).toFixed (fun _ => "") 2 = "20.00" := by decide
  rw [BetSlipState.request, hselection]
  simp only [hcents, hstake, hpayout, htexts.1, htexts.2]
  rfl

/-- The slip after a selection and a submit. -/
def submittedSlip : SlipClient where
  slip := (BetSlipState.initial.select (sampleSelection "a")).pending
  requests := [⟨sampleBet "a", none⟩]
  shown := none

/-- A selection and a submission reach the slip of the example. -/
theorem submittedSlip_reached {guard : SlipClient → SlipLabel → Prop}
    (hguard : ∀ client selection, guard client (.select selection))
    (hguard' : ∀ client timestamp, guard client (.submit timestamp)) :
    Reaches (SlipClient.step fun _ => "") guard .start submittedSlip := by
  have hselect : Reaches (SlipClient.step fun _ => "") guard .start
      ⟨BetSlipState.initial.select (sampleSelection "a"), [], none⟩ :=
    Reaches.refl.tail (hguard _ (sampleSelection "a")) rfl
  have hrequest :=
    sample_request (BetSlipState.initial.select (sampleSelection "a")) "a" rfl rfl
  refine hselect.tail (hguard' _ "2026-08-25T12:00:00.000Z") ?_
  simp only [SlipClient.step, hrequest]
  rfl

/-- The slip after the confirmation. -/
def confirmedSlip : SlipClient where
  slip := submittedSlip.slip.next sampleResponse
  requests := [⟨sampleBet "a", some (.success sampleResponse)⟩]
  shown := some 0

theorem slip_attributed_sample :
    Reaches (SlipClient.step fun _ => "") (SlipClient.Careful fun _ => "") .start confirmedSlip ∧
      confirmedSlip.Attributed fun _ => "" := by
  have hcareful : submittedSlip.Careful (fun _ => "") (.respond 0 (.success sampleResponse)) := by
    intro sent hsent
    obtain rfl := Option.some.inj hsent
    have hstake : (Number.ofInt 10).toFixed (fun _ => "") 2 = "10.00" := by decide
    exact ⟨⟨sampleSelection "a", rfl, rfl, rfl, rfl⟩, hstake.symm⟩
  have hrun := (submittedSlip_reached (fun _ _ => trivial) fun _ _ => trivial).tail hcareful
    (show submittedSlip.step _ _ = some confirmedSlip from rfl)
  exact ⟨hrun, (slip_attributed _ _ hrun).1⟩

/-- The slip when another match is selected before the confirmation arrives. -/
def misattributedSlip : SlipClient where
  slip := (submittedSlip.slip.select (sampleSelection "b")).next sampleResponse
  requests := [⟨sampleBet "a", some (.success sampleResponse)⟩]
  shown := some 0

/-- The slip confirms a bet on match `b` with the event id of the bet on match `a`. -/
theorem confirmation_misattributed :
    Reachable (SlipClient.step fun _ => "") .start misattributedSlip ∧
      misattributedSlip.slip.status = .accepted ∧ misattributedSlip.slip.eventId = some "e" ∧
      ¬ misattributedSlip.Attributed fun _ => "" := by
  have hselect : Reachable (SlipClient.step fun _ => "") .start
      ⟨submittedSlip.slip.select (sampleSelection "b"), [⟨sampleBet "a", none⟩], none⟩ :=
    (submittedSlip_reached (fun _ _ => trivial) fun _ _ => trivial).tail trivial
      (show submittedSlip.step _ (.select (sampleSelection "b")) = _ from rfl)
  refine ⟨hselect.tail trivial
    (show SlipClient.step _ _ (.respond 0 (.success sampleResponse)) = _ from rfl), rfl, rfl, ?_⟩
  intro hattributed
  obtain ⟨index, request, response, hshown, hrequest, -, ⟨selection, hselection, hfor⟩, -⟩ :=
    hattributed.accepted rfl "e" rfl
  obtain rfl := Option.some.inj hshown
  obtain rfl := (SentRequest.mk.inj (Option.some.inj hrequest)).1
  obtain rfl := Option.some.inj hselection
  exact absurd hfor.1 (show "a" ≠ "b" by decide)

end Frontend
end BettingPlatform
