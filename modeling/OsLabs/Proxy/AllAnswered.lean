import OsLabs.Proxy.Answers

/-!
# Runs in which everybody is answered

When no step takes a failing branch and every request is for a URL that
`parseURL` accepts, all URLs in the proxy are accepted ones, and no download
comes to a `parseURL` that fails.
-/

set_option autoImplicit false

namespace OsLabs.Proxy

open OsLabs.CString OsLabs.Transition

/-! ## URLs that parseURL accepts -/

/-- The URL a handler looks for or adds. -/
def Thread.asks : Thread → Option Url
  | .locking _ (.getCacheEntry url) | .inside _ (.getCacheEntry url) => some url
  | .locking _ (.addNewEntry url) | .inside _ (.addNewEntry url) => some url
  | .evicting _ url | .evictInside _ url => some url
  | _ => none

/-- Every URL in the proxy is one that `parseURL` accepts. -/
structure UrlsParse (s : State) : Prop where
  asked : ∀ tid url, (s.thread tid).asks = some url → url.parses = true
  cached : ∀ entry, Parsable s entry

theorem start_urlsParse : UrlsParse .start where
  asked _ _ isNone := by cases isNone
  cached _ _ isNone := by cases isNone

def Thread.AsksParsable (thread : Thread) : Prop :=
  ∀ url, thread.asks = some url → url.parses = true

theorem asksParsable_none {thread : Thread} (silent : thread.asks = none) :
    thread.AsksParsable := by
  intro url asks
  rw [silent] at asks
  cases asks

theorem downloadNext_asks (entry : Addr) (pending : List (List Byte))
    (loop : Option LoopState) : (downloadNext entry pending loop).AsksParsable :=
  downloadNext_elim (P := Thread.AsksParsable) (fun _ _ _ => asksParsable_none rfl)
    (fun _ => asksParsable_none rfl) (asksParsable_none rfl) pending loop

theorem resume_asks {caller : Caller} {op : Op} (result : Option Addr)
    (before : (Thread.inside caller op).AsksParsable) :
    (resume caller op result).AsksParsable := by
  cases caller with
  | client => exact asksParsable_none rfl
  | handler =>
      cases op with
      | getCacheEntry url =>
          cases result with
          | none => exact before
          | some entry => exact asksParsable_none rfl
      | addNewEntry url => cases result <;> exact asksParsable_none rfl
      | _ => exact asksParsable_none rfl
  | downloader pending loop =>
      cases op with
      | cacheInsertData entry data => exact downloadNext_asks entry pending loop
      | _ => exact asksParsable_none rfl

theorem proxyStep_asks {s next : State} {action : Action} (urls : UrlsParse s)
    (proxied : Proxied s) (accepts : ∀ tid url, action = .accept tid url → url.parses = true)
    (stepped : proxySystem.step s action = some next) :
    ∀ tid, (next.thread tid).AsksParsable := by
  obtain ⟨stepped, noCall⟩ := proxyStep_cases stepped
  have all : ∀ tid, (s.thread tid).AsksParsable := urls.asked
  have moved : ∀ tid thread, thread.AsksParsable →
      ∀ other, ((s.setThread tid thread).thread other).AsksParsable :=
    fun tid thread => setThread_all (P := Thread.AsksParsable) all tid
  cases threadStep_move stepped with
  | @accept tid url born =>
      refine moved tid _ fun other isUrl => ?_
      cases isUrl
      exact accepts tid url rfl
  | call free => cases noCall
  | @lock tid caller op waiting free =>
      have before := all tid
      rw [waiting] at before
      exact moved tid (.inside caller op) (by cases op <;> exact before)
  | @nestedLock tid caller url waiting free =>
      have before := all tid
      rw [waiting] at before
      exact moved tid (.evictInside caller url) before
  | @returns tid choices caller op effect result here ran outcome =>
      have before := all tid
      rw [here] at before
      exact returns_all (P := Thread.AsksParsable)
        (fun other _ => broadcast_elim (P := Thread.AsksParsable) _ (all other)
          fun _ _ => asksParsable_none rfl)
        (resume_asks result before)
  | @evicts tid choices caller url here full =>
      have before := all tid
      rw [here] at before
      exact moved tid _ before
  | waits here incomplete => exact moved _ (.sleeping _) (asksParsable_none rfl)
  | nestedBody here ran => exact absurd here (proxied.sound.noNested _ _ _)
  | createFailed here => exact moved _ _ (asksParsable_none rfl)
  | created here born =>
      exact setThread_all (P := Thread.AsksParsable) (moved _ _ (asksParsable_none rfl)) _
        (asksParsable_none rfl)
  | @advance tid entry stage ok headerBuffer here =>
      refine moved tid _ (asksParsable_none ?_)
      cases stage <;> cases ok <;> rfl
  | recv here =>
      exact moved _ _ (receive_elim (P := Thread.AsksParsable) (downloadNext_asks _) _ _)
  | wake here => exact moved _ _ (asksParsable_none rfl)

theorem proxyStep_urlsParse {s next : State} {action : Action} (urls : UrlsParse s)
    (proxied : Proxied s) (accepts : ∀ tid url, action = .accept tid url → url.parses = true)
    (stepped : proxySystem.step s action = some next) : UrlsParse next := by
  refine ⟨proxyStep_asks urls proxied accepts stepped, fun entry => ?_⟩
  obtain ⟨event, happens⟩ := proxyStep_happens proxied stepped
  rw [parsable_iff, happens.after]
  intro later stored
  rcases url_origin stored with ⟨payload, before, sameUrl⟩ | ⟨_, tid, isAdded⟩
  · rw [sameUrl]
    exact parsable_iff.mp (urls.cached entry) payload before
  · have cause := happens.cause
    rw [isAdded] at cause
    obtain ⟨choices, caller, _, here, _⟩ := cause
    exact urls.asked tid later.url (by rw [here]; rfl)

/-! ## Runs without failures -/

/-- The step succeeds, and a request it brings is for a URL that `parseURL` accepts. -/
def SucceedsParsing (s : State) (action : Action) : Prop :=
  Succeeds s action ∧ ∀ tid url, action = .accept tid url → url.parses = true

/-- Every handler that has an entry in hand can still be sent its bytes. -/
def EverybodyAnswerable (s : State) : Prop :=
  ∀ tid entry, (s.thread tid).holds = some entry → CanAnswer s tid entry

theorem OnTheWay.promised {s : State} (onTheWay : OnTheWay s) (urls : UrlsParse s) {tid : Tid}
    {entry : Addr} (holds : (s.thread tid).holds = some entry) : Promised s entry := by
  obtain ⟨payload, stored⟩ :=
    Option.ne_none_iff_exists'.mp (onTheWay.kept.attended.held tid entry holds)
  rcases onTheWay.covered entry payload stored with complete | ⟨writer, writes⟩
  · obtain ⟨e, loaded, isPayload⟩ := Option.map_eq_some_iff.mp stored
    rw [← isPayload] at complete
    exact Or.inl ⟨e, loaded, complete⟩
  · have onward := onTheWay.nobodyDeletes writer
    refine Or.inr ⟨writer, ?_, fun _ => urls.cached entry⟩
    change (s.thread writer).writes = some entry at writes
    cases here : s.thread writer with
    | locking caller op =>
        rw [here] at writes onward
        cases caller with
        | downloader pending loop =>
            cases op <;> first | exact writes | exact absurd trivial onward
        | _ => cases writes
    | inside caller op =>
        rw [here] at writes onward
        cases caller with
        | downloader pending loop =>
            cases op <;> first | exact writes | exact absurd trivial onward
        | _ => cases writes
    | _ =>
        rw [here] at writes
        exact writes

/-- In a run without failures, all for URLs that `parseURL` accepts, every handler
can be answered at every moment, even once a full cache has locked `cacheMutex`
for good. -/
theorem answerable_of_success (actions : List Action)
    (succeeds : proxySystem.Meets SucceedsParsing .start actions) :
    proxySystem.Always EverybodyAnswerable .start actions := by
  refine (System.always_of_meets SucceedsParsing
    (fun s => OnTheWay s ∧ Grounded s ∧ UrlsParse s) ?_ .start actions
    ⟨start_onTheWay, start_grounded, start_urlsParse⟩ succeeds).mono ?_
  · rintro s action next ⟨onTheWay, grounded, urls⟩ ⟨goesOn, accepts⟩ stepped
    exact ⟨proxyStep_onTheWay onTheWay goesOn stepped, proxyStep_grounded _ _ _ grounded stepped,
      proxyStep_urlsParse urls grounded.shares.proxied accepts stepped⟩
  · rintro s ⟨onTheWay, grounded, urls⟩ tid entry holds
    exact grounded.answers holds (onTheWay.promised urls holds)

theorem whole_request_answerable :
    (proxySystem.run .start wholeRequest).isSome = true ∧
      proxySystem.Always EverybodyAnswerable .start wholeRequest := by
  have parses : (snprintfUrl (text "http://a/")).parses = true := by decide +kernel
  refine ⟨by decide +kernel, answerable_of_success wholeRequest
    (System.meets_of_actions SucceedsParsing _ _ ?_)⟩
  simp [wholeRequest, SucceedsParsing, Succeeds, parses]

end OsLabs.Proxy
