import OsLabs.Proxy.Completion

/-!
# One entry and one download for each URL

`handleRequest` looks a URL up in one critical section and adds it in another.
The second one does not look again, so the URLs on the list stay distinct
exactly as long as nobody adds a URL that has been added since the lookup.
-/

set_option autoImplicit false

namespace OsLabs.Proxy

open OsLabs.CString OsLabs.Transition

/-- The entry is on the list and has the URL. -/
def InCache (s : State) (entry : Addr) (url : Url) : Prop :=
  ∃ chain e, s.memory.Cached chain ∧ entry ∈ chain ∧ s.memory.heap entry = some e ∧ e.url = url

structure UrlsUnique (s : State) : Prop where
  oneEntry : ∀ url first second, InCache s first url → InCache s second url → first = second
  oneDownload : ∀ url tid other first second, InCache s first url → InCache s second url →
    (s.thread tid).downloads = some first → (s.thread other).downloads = some second →
      tid = other

/-- An entry that `addNewEntry` links has a URL that no cached entry has. -/
def AddsNewUrl (s : State) (action : Action) : Prop :=
  ∀ tid choices caller url, action = .body tid choices →
    s.thread tid = .inside caller (.addNewEntry url) → s.memory.cacheSize < cacheMaxSize →
      choices.allocated = true → ∀ entry, ¬ InCache s entry url

theorem inCache_iff {s : State} (sound : Sound s) (entry : Addr) (url : Url) :
    InCache s entry url ↔ ∃ payload, s.memory.payload entry = some payload ∧ payload.url = url := by
  constructor
  · intro assumed
    obtain ⟨_, e, _, _, loaded, isUrl⟩ := assumed
    exact ⟨e.payload, Cache.payload_of_some loaded, isUrl⟩
  · intro assumed
    obtain ⟨payload, stored, isUrl⟩ := assumed
    obtain ⟨e, loaded, isPayload⟩ := Option.map_eq_some_iff.mp stored
    obtain ⟨chain, represents, _⟩ := sound.cache
    subst isPayload
    exact ⟨chain, e, represents.linked, represents.onlyChain entry (by simp [loaded]), loaded, isUrl⟩

/-! ## Distinct URLs in the abstract model -/

def DistinctUrls (m : Shared) : Prop :=
  ∀ first second payload other, m.entries first = some payload → m.entries second = some other →
    payload.url = other.url → first = second

/-- Entries that change in place keep their URLs. -/
theorem DistinctUrls.changed {m : Shared} (distinct : DistinctUrls m) (entry : Addr)
    (change : Payload → Payload) (keepsUrl : ∀ payload, (change payload).url = payload.url) :
    DistinctUrls
      { m with entries := Function.update m.entries entry ((m.entries entry).map change) } := by
  have before : ∀ addr payload,
      Function.update m.entries entry ((m.entries entry).map change) addr = some payload →
        ∃ old, m.entries addr = some old ∧ old.url = payload.url := by
    intro addr payload stored
    rcases update_eq_some stored with ⟨here, changed⟩ | ⟨_, same⟩
    · obtain ⟨old, oldStored, isPayload⟩ := Option.map_eq_some_iff.mp changed
      rw [here]
      exact ⟨old, oldStored, by rw [← isPayload, keepsUrl]⟩
    · exact ⟨payload, same, rfl⟩
  intro first second payload other stored otherStored sameUrl
  obtain ⟨old, oldStored, oldUrl⟩ := before first payload stored
  obtain ⟨oldOther, oldOtherStored, oldOtherUrl⟩ := before second other otherStored
  exact distinct first second old oldOther oldStored oldOtherStored
    (by rw [oldUrl, oldOtherUrl, sameUrl])

theorem distinctUrls_after {m : Shared} {event : Event} (distinct : DistinctUrls m)
    (isNew : ∀ tid url, event = .added tid url →
      ∀ entry payload, m.entries entry = some payload → payload.url ≠ url) :
    DistinctUrls (m.after event) := by
  cases event with
  | added tid url =>
      have old := isNew tid url rfl
      intro first second payload other stored otherStored sameUrl
      rcases update_eq_some stored with ⟨isFirst, isAdded⟩ | ⟨_, before⟩ <;>
        rcases update_eq_some otherStored with ⟨isSecond, alsoAdded⟩ | ⟨_, otherBefore⟩
      · rw [isFirst, isSecond]
      · cases isAdded
        exact absurd sameUrl.symm (old second other otherBefore)
      · cases alsoAdded
        exact absurd sameUrl (old first payload before)
      · exact distinct first second payload other before otherBefore sameUrl
  | deleted tid entry =>
      intro first second payload other stored otherStored sameUrl
      rcases update_eq_some stored with ⟨_, freed⟩ | ⟨_, before⟩
      · cases freed
      · rcases update_eq_some otherStored with ⟨_, freed⟩ | ⟨_, otherBefore⟩
        · cases freed
        · exact distinct first second payload other before otherBefore sameUrl
  | inserted tid entry allocated data =>
      exact distinct.changed entry (Payload.insert allocated data) fun _ => rfl
  | completed tid entry =>
      exact distinct.changed entry Payload.complete fun _ => rfl
  | _ => exact distinct

/-! ## In the proxy -/

structure Distinct (s : State) : Prop where
  shares : Shares s
  distinct : DistinctUrls s.shared

theorem start_distinct : Distinct .start :=
  ⟨start_shares, by simp [DistinctUrls, State.shared, State.start, Cache.payload, Cache.empty]⟩

theorem Distinct.unique {s : State} (distinct : Distinct s) : UrlsUnique s := by
  have sound := distinct.shares.proxied.sound
  have oneEntry : ∀ url first second, InCache s first url → InCache s second url →
      first = second := by
    intro url first second inCache alsoInCache
    obtain ⟨payload, stored, isUrl⟩ := (inCache_iff sound first url).mp inCache
    obtain ⟨other, otherStored, alsoUrl⟩ := (inCache_iff sound second url).mp alsoInCache
    exact distinct.distinct first second payload other stored otherStored (by rw [isUrl, alsoUrl])
  refine ⟨oneEntry, ?_⟩
  intro url tid other first second inCache alsoInCache downloads alsoDownloads
  have same := oneEntry url first second inCache alsoInCache
  rw [← same] at alsoDownloads
  exact distinct.shares.one.single tid other first (downloads_writes downloads)
    (downloads_writes alsoDownloads)

theorem proxyStep_distinct {s next : State} {action : Action} (distinct : Distinct s)
    (adds : AddsNewUrl s action) (stepped : proxySystem.step s action = some next) :
    Distinct next := by
  have proxied := distinct.shares.proxied
  obtain ⟨event, happens⟩ := proxyStep_happens proxied stepped
  refine ⟨proxyStep_shares s action next distinct.shares stepped, ?_⟩
  rw [happens.after]
  apply distinctUrls_after distinct.distinct
  intro tid url isAdded entry payload stored sameUrl
  subst isAdded
  obtain ⟨choices, caller, isBody, here, allocated, room⟩ := happens.cause
  exact adds tid choices caller url isBody here room allocated entry
    ((inCache_iff proxied.sound entry url).mpr ⟨payload, stored, sameUrl⟩)

/-- An entry linked beside one with the same URL stays beside it. -/
theorem addsNewUrl_of_unique {s next : State} {action : Action} (distinct : Distinct s)
    (stepped : proxySystem.step s action = some next) (unique : UrlsUnique next) :
    AddsNewUrl s action := by
  intro tid choices caller url isBody here room allocated entry inCache
  subst isBody
  have sound := distinct.shares.proxied.sound
  have soundNext := (proxyStep_proxied distinct.shares.proxied stepped).sound
  obtain ⟨stepped, _⟩ := proxyStep_cases stepped
  obtain ⟨payload, stored, isUrl⟩ := (inCache_iff sound entry url).mp inCache
  have unused := sound.fresh s.nextId le_rfl
  rcases addNewEntry_effect_room choices s.nextId sound.cache url room unused with
    ⟨failed, _⟩ | ⟨_, after, ran, _, linked⟩
  · rw [allocated] at failed
    cases failed
  · simp only [threadStep, State.stepBody, here, ran, State.finish, Option.some.injEq] at stepped
    subst next
    have different : entry ≠ s.nextId := by
      intro same
      rw [same, (Cache.payload_eq_none_iff _ _).mpr unused] at stored
      cases stored
    have new : InCache _ s.nextId url := (inCache_iff soundNext s.nextId url).mpr
      ⟨⟨url, [], false⟩, by show after.payload s.nextId = _; rw [linked, Function.update_self], rfl⟩
    have old : InCache _ entry url := (inCache_iff soundNext entry url).mpr
      ⟨payload, by show after.payload entry = _; rwa [linked, Function.update_of_ne different],
        isUrl⟩
    exact different (unique.oneEntry url entry s.nextId old new)

/-- All along a run the cached URLs are distinct and downloaded once at a time,
exactly when every entry the run links has a URL that is not yet cached. -/
theorem urls_unique_iff (actions : List Action) :
    proxySystem.Always UrlsUnique .start actions ↔
      proxySystem.Meets AddsNewUrl .start actions :=
  System.always_iff_meets AddsNewUrl Distinct UrlsUnique (fun _ distinct => distinct.unique)
    (fun _ _ _ distinct adds stepped => proxyStep_distinct distinct adds stepped)
    (fun _ _ _ distinct stepped unique => addsNewUrl_of_unique distinct stepped unique)
    .start actions start_distinct

/-- Two handlers that both look the URL up before either adds it. -/
def twoMisses : List Action :=
  [.accept 0 (snprintfUrl (text "http://a/")), .accept 1 (snprintfUrl (text "http://a/")),
    .lock 0, .body 0 ⟨0, true, none⟩, .lock 1, .body 1 ⟨0, true, none⟩,
    .lock 0, .body 0 ⟨0, true, none⟩, .lock 1, .body 1 ⟨0, true, none⟩]

theorem two_entries_for_one_url : ¬ proxySystem.Always UrlsUnique .start twoMisses := by
  intro always
  have unique := always.along twoMisses [] rfl
  have same := unique.oneEntry (snprintfUrl (text "http://a/")) 0 1
    ⟨[1, 0], _, ⟨rfl, _, rfl, rfl, _, rfl, rfl⟩, by decide, rfl, snprintfUrl_bytes _⟩
    ⟨[1, 0], _, ⟨rfl, _, rfl, rfl, _, rfl, rfl⟩, by decide, rfl, snprintfUrl_bytes _⟩
  cases same

end OsLabs.Proxy
