import TraxMania.Generation.LlmSpec
import TraxMania.Lib.PyText
import TraxMania.Lib.Transition
import Mathlib.Data.Finset.Card
import Mathlib.Data.List.Chain

/-
  `ingestion/tmx.py`: the two iterators over the listing of maps. A request is its cursor, and what
  comes back is an input.

  The cursor is the last MapId of a page that `int` reads. A page without one is asked for again
  (`listing_progress_iff`), and a page that does not end with its oldest map brings maps twice.
-/

namespace TraxMania.Ingestion.Tmx

open TraxMania.Generation TraxMania.Generation.Llm Lib.Transition

/-! ## Summaries -/

/-- The functions of the standard library that the adapter calls. -/
structure ListingPython extends Python where
  /-- `str` of a value that is no text. -/
  str : Json → String

/-- `TmxMapSummary`, without the fields that are always the same. -/
structure TmxMapSummary where
  tmxId : String
  title : Option String
  author : Option String
  environment : Option String
  styleTagsRaw : List String
  lengthEstimateMs : Option Int
  awardCount : Option Int
  trackValue : Option Int
  difficulty : Option Int
  raw : List (String × Json)

section

variable (py : ListingPython)

/-- `_as_str(value)`. -/
def asStr : Json → Option String
  | .null => none
  | .str s => if s = "" then none else some s
  | value => if py.str value = "" then none else some (py.str value)

/-- `_as_int(value)`. -/
def asInt : Json → Except PyError (Option Int)
  | .null => .ok none
  | .bool _ => .ok none
  | value =>
    match value.toInt py.toPython with
    | .ok n => .ok (some n)
    | .error .typeError => .ok none
    | .error .valueError => .ok none
    | .error .jsonDecodeError => .ok none
    | .error e => .error e

/-- `raw.get(key) or raw.get(other)`. -/
def getOr (raw : List (String × Json)) (key other : String) : Json :=
  if truthy (field raw key .null) then field raw key .null else field raw other .null

/-- `_extract_author(raw)`. -/
def extractAuthor (raw : List (String × Json)) : Option String :=
  match field raw "Authors" .null with
  | .arr (.obj first :: _) =>
    match field first "User" .null with
    | .obj user => asStr py (field user "Name" .null)
    | _ => asStr py (field first "Name" .null)
  | _ => none

/-- `_extract_tags(raw)`. -/
def extractTags (raw : List (String × Json)) : List String :=
  match field raw "Tags" .null with
  | .arr tags =>
    tags.filterMap fun t =>
      match t with
      | .obj tag => asStr py (field tag "Name" .null)
      | .null => none
      | .str s => some s
      | value => some (py.str value)
  | _ => []

/-- `_normalize_summary(raw)`. -/
def normalizeSummary (raw : List (String × Json)) : Except PyError (Option TmxMapSummary) :=
  match asStr py (field raw "MapId" .null) with
  | none => .ok none
  | some tmxId => do
    let length ← asInt py (field raw "Length" .null)
    let awards ← asInt py (field raw "AwardCount" .null)
    let value ← asInt py (field raw "TrackValue" .null)
    let difficulty ← asInt py (field raw "Difficulty" .null)
    return some
      { tmxId := tmxId
        title := asStr py (getOr raw "Name" "GbxMapName")
        author := extractAuthor py raw
        environment := asStr py (getOr raw "TitlePack" "Environment")
        styleTagsRaw := extractTags py raw
        lengthEstimateMs := length
        awardCount := awards
        trackValue := value
        difficulty := difficulty
        raw := raw }

/-! ## Pages -/

/-- What a request brings. -/
inductive Reply where
  /-- `_get_json` raises. -/
  | failed
  | payload (entries : List (String × Json))

/-- How the turn of the loop for a page ends. -/
inductive Turn where
  /-- The next request, for this cursor. -/
  | more (lastSeen : Option Int)
  | returned
  | raised
deriving DecidableEq

/-- `last_seen` and `emitted_any`, and the summaries yielded so far, in the loop over a page. -/
structure Page where
  yielded : List TmxMapSummary
  lastSeen : Option Int
  emittedAny : Bool

/-- A summary is yielded, and the cursor moves to its id if `int` reads it. -/
def Page.emit (page : Page) (summary : TmxMapSummary) : Page where
  yielded := page.yielded ++ [summary]
  lastSeen := (py.intOfText summary.tmxId).or page.lastSeen
  emittedAny := true

/-- `for raw in results`: the page after it, or at the exception that ends it. -/
def readPage : Page → List Json → Page × Option PyError
  | page, [] => (page, none)
  | page, .obj raw :: results =>
    match normalizeSummary py raw with
    | .error e => (page, some e)
    | .ok none => readPage page results
    | .ok (some summary) => readPage (page.emit py summary) results
  | page, _ :: results => readPage page results

/-- A turn of the loop of `iter_map_summaries`: what it yields, and how it ends. -/
def turn (lastSeen : Option Int) : Reply → List TmxMapSummary × Turn
  | .failed => ([], .raised)
  | .payload entries =>
    match field entries "Results" .null with
    | .arr (first :: rest) =>
      match readPage py ⟨[], lastSeen, false⟩ (first :: rest) with
      | (page, some _) => (page.yielded, .raised)
      | (page, none) =>
        if !truthy (field entries "More" .null) || !page.emittedAny then (page.yielded, .returned)
        else (page.yielded, .more page.lastSeen)
    | _ => ([], .returned)

/-- Between two requests: the cursor of the next one. -/
inductive Paging where
  | ended
  | asking (lastSeen : Option Int)

def Paging.step : Paging → Reply → Paging
  | .ended, _ => .ended
  | .asking lastSeen, reply =>
    match (turn py lastSeen reply).2 with
    | .more lastSeen => .asking lastSeen
    | _ => .ended

/-- The cursors of the requests while the replies come in, with the one that waits for its reply. -/
def requests : Paging → List Reply → List (Option Int)
  | .ended, _ => []
  | .asking lastSeen, [] => [lastSeen]
  | .asking lastSeen, reply :: replies =>
    lastSeen :: requests (Paging.step py (.asking lastSeen) reply) replies

/-- At most `fuel` turns against a server whose replies may depend on the cursor and on the requests
    before. -/
def walk (server : ℕ → Option Int → Reply) : ℕ → ℕ → Option Int → List TmxMapSummary × Turn
  | 0, _, lastSeen => ([], .more lastSeen)
  | fuel + 1, asked, lastSeen =>
    match turn py lastSeen (server asked lastSeen) with
    | (yielded, .more lastSeen) =>
      let rest := walk server fuel (asked + 1) lastSeen
      (yielded ++ rest.1, rest.2)
    | ended => ended

/-! ## Random maps -/

/-- What a turn of `iter_random_summaries` does. -/
inductive RandomTurn where
  | yields (summary : TmxMapSummary)
  /-- `continue`. -/
  | again
  /-- The iterator returns or raises. -/
  | ends

/-- A turn of its loop: `results[0]` is an error on a dictionary, a number or a boolean, and the
    first character of a text. -/
def randomTurn : Reply → RandomTurn
  | .failed => .ends
  | .payload entries =>
    match field entries "Results" .null with
    | .arr (.obj raw :: _) =>
      match normalizeSummary py raw with
      | .error _ => .ends
      | .ok none => .again
      | .ok (some summary) => .yields summary
    | .arr (_ :: _) => .again
    | .str s => if s = "" then .ends else .again
    | _ => .ends

/-- `emitted`, the requests that have yielded nothing, and whether the loop goes on. -/
structure Sampling where
  emitted : ℕ
  fruitless : ℕ
  active : Bool

def Sampling.start (count : Int) : Sampling := ⟨0, 0, 0 < count⟩

def Sampling.step (count : Int) (s : Sampling) (reply : Reply) : Sampling :=
  if s.active then
    match randomTurn py reply with
    | .yields _ => { s with emitted := s.emitted + 1, active := s.emitted + 1 < count }
    | .again => { s with fruitless := s.fruitless + 1 }
    | .ends => { s with fruitless := s.fruitless + 1, active := false }
  else s

/-! ## What a page says -/

/-- The entries of a page. -/
def Reply.results : Reply → List Json
  | .failed => []
  | .payload entries =>
    match field entries "Results" .null with
    | .arr results => results
    | _ => []

/-- The summary of an entry that has one. -/
def summaryOf : Json → Option TmxMapSummary
  | .obj raw =>
    match normalizeSummary py raw with
    | .ok summary => summary
    | .error _ => none
  | _ => none

/-- No entry raises. -/
def Clean (results : List Json) : Prop :=
  ∀ raw, Json.obj raw ∈ results → ∃ summary, normalizeSummary py raw = .ok summary

/-- The MapIds of a page that `int` reads. -/
def readableIds (results : List Json) : List Int :=
  (results.filterMap (summaryOf py)).filterMap fun summary => py.intOfText summary.tmxId

/-- Another page is asked for: the reply says that there is more, none of its entries raises, and one
    has a MapId. -/
def Followed : Reply → Prop
  | .failed => False
  | .payload entries =>
    truthy (field entries "More" .null) = true ∧ Clean py (Reply.payload entries).results ∧
      (Reply.payload entries).results.filterMap (summaryOf py) ≠ []

/-- The last MapId of the page that `int` reads. -/
def lastId (reply : Reply) : Option Int := (readableIds py reply.results).getLast?

/-- A page that is followed by another one has a readable MapId, and the last of them is not the one
    that the page was asked with. -/
def Moves : Paging → Reply → Prop
  | .ended, _ => True
  | .asking lastSeen, reply => Followed py reply → ∃ id, lastId py reply = some id ∧ lastSeen ≠ some id

variable {py}

/-- An entry that does not raise: its summary is emitted, if it has one. -/
theorem readPage_cons {raw : Json} {results : List Json} (h : Clean py (raw :: results))
    (page : Page) :
    readPage py page (raw :: results) =
      readPage py ((summaryOf py raw).elim page (page.emit py)) results := by
  cases raw with
  | obj raw =>
    obtain ⟨summary, hsummary⟩ := h raw List.mem_cons_self
    cases summary with
    | none => simp only [readPage, summaryOf, hsummary, Option.elim_none]
    | some summary => simp only [readPage, summaryOf, hsummary, Option.elim_some]
  | _ => rfl

theorem readPage_clean {results : List Json} (h : Clean py results) (page : Page) :
    readPage py page results =
      (⟨page.yielded ++ results.filterMap (summaryOf py),
        ((readableIds py results).getLast?).or page.lastSeen,
        page.emittedAny || !(results.filterMap (summaryOf py)).isEmpty⟩, none) := by
  induction results generalizing page with
  | nil => simp [readPage, readableIds]
  | cons raw results ih =>
    have hrest : Clean py results := fun raw' hraw => h raw' (List.mem_cons_of_mem _ hraw)
    rw [readPage_cons h, ih hrest]
    unfold readableIds
    cases hsome : summaryOf py raw with
    | none => rw [List.filterMap_cons_none hsome, Option.elim_none]
    | some summary =>
      rw [List.filterMap_cons_some hsome, List.filterMap_cons, Option.elim_some]
      simp only [Page.emit, List.append_assoc, List.singleton_append, List.isEmpty_cons,
        Bool.not_false, Bool.or_true, Bool.true_or]
      cases py.intOfText summary.tmxId with
      | none => rfl
      | some id =>
        dsimp only
        rw [List.getLast?_cons]
        cases (List.filterMap (fun summary => py.intOfText summary.tmxId)
          (results.filterMap (summaryOf py))).getLast? with
        | none => rfl
        | some last => rfl

theorem readPage_raises {results : List Json} (h : ¬ Clean py results) (page : Page) :
    ∃ e, (readPage py page results).2 = some e := by
  induction results generalizing page with
  | nil => exact absurd (fun raw hraw => absurd hraw List.not_mem_nil) h
  | cons raw results ih =>
    cases raw with
    | obj raw =>
      cases hsummary : normalizeSummary py raw with
      | error e => exact ⟨e, by simp only [readPage, hsummary]⟩
      | ok summary =>
        have hrest : ¬ Clean py results := by
          intro hclean
          apply h
          intro raw' hraw'
          rcases List.mem_cons.mp hraw' with heq | hraw'
          · rw [Json.obj.inj heq]
            exact ⟨summary, hsummary⟩
          · exact hclean raw' hraw'
        cases summary with
        | none =>
          simp only [readPage, hsummary]
          exact ih hrest page
        | some summary =>
          simp only [readPage, hsummary]
          exact ih hrest _
    | _ =>
      have hrest : ¬ Clean py results := by
        intro hclean
        apply h
        intro raw' hraw'
        rcases List.mem_cons.mp hraw' with heq | hraw'
        · cases heq
        · exact hclean raw' hraw'
      exact ih hrest page

theorem turn_clean {entries : List (String × Json)}
    (h : Clean py (Reply.payload entries).results) (lastSeen : Option Int) :
    turn py lastSeen (.payload entries) =
      ((Reply.payload entries).results.filterMap (summaryOf py),
        if truthy (field entries "More" .null) = true ∧
            (Reply.payload entries).results.filterMap (summaryOf py) ≠ [] then
          .more ((lastId py (.payload entries)).or lastSeen)
        else .returned) := by
  cases hfield : field entries "Results" .null with
  | arr results =>
    have hresults : (Reply.payload entries).results = results := by simp only [Reply.results, hfield]
    rw [hresults] at h
    unfold lastId
    rw [hresults]
    cases results with
    | nil => simp [turn, hfield]
    | cons first rest =>
      simp only [turn, hfield, readPage_clean h, List.nil_append, Bool.false_or, Bool.not_not,
        Bool.or_eq_true, Bool.not_eq_true', List.isEmpty_iff]
      by_cases hmore : truthy (field entries "More" .null) = true
      · by_cases hnone : (first :: rest).filterMap (summaryOf py) = []
        · simp only [hmore, hnone, ne_eq, not_true, and_false, or_true, if_true, if_false]
        · simp only [hmore, hnone, ne_eq, not_false_iff, and_self, Bool.true_eq_false, or_self,
            if_true, if_false]
      · rw [Bool.not_eq_true] at hmore
        simp only [hmore, Bool.false_eq_true, false_and, true_or, if_true, if_false]
  | _ =>
    have hresults : (Reply.payload entries).results = [] := by simp only [Reply.results, hfield]
    rw [hresults]
    simp [turn, hfield]

theorem turn_raises {entries : List (String × Json)}
    (h : ¬ Clean py (Reply.payload entries).results) (lastSeen : Option Int) :
    (turn py lastSeen (.payload entries)).2 = .raised := by
  have hnil : Clean py [] := fun raw hraw => absurd hraw List.not_mem_nil
  cases hfield : field entries "Results" .null with
  | arr results =>
    have hresults : (Reply.payload entries).results = results := by simp only [Reply.results, hfield]
    rw [hresults] at h
    cases results with
    | nil => exact absurd hnil h
    | cons first rest =>
      obtain ⟨e, he⟩ := readPage_raises h ⟨[], lastSeen, false⟩
      simp only [turn, hfield]
      generalize readPage py ⟨[], lastSeen, false⟩ (first :: rest) = read at he
      obtain ⟨page, error⟩ := read
      dsimp only at he
      rw [he]
  | _ =>
    have hresults : (Reply.payload entries).results = [] := by simp only [Reply.results, hfield]
    rw [hresults] at h
    exact absurd hnil h

/-- Exactly the pages that are followed lead to another request, for the last readable MapId. -/
theorem turn_more_iff (lastSeen next : Option Int) (reply : Reply) :
    (turn py lastSeen reply).2 = .more next ↔
      Followed py reply ∧ next = (lastId py reply).or lastSeen := by
  cases reply with
  | failed => exact iff_of_false (fun h => nomatch h) (fun h => h.1)
  | payload entries =>
    unfold Followed
    by_cases hclean : Clean py (Reply.payload entries).results
    · rw [turn_clean hclean]
      dsimp only
      split
      · next hmore =>
        rw [Turn.more.injEq, eq_comm]
        exact ⟨fun h => ⟨⟨hmore.1, hclean, hmore.2⟩, h⟩, fun h => h.2⟩
      · next hmore =>
        exact iff_of_false (fun h => nomatch h) fun h => hmore ⟨h.1.1, h.1.2.2⟩
    · rw [turn_raises hclean]
      exact iff_of_false (fun h => nomatch h) fun h => hclean h.1.2.1

/-! ## Progress of the cursor -/

theorem step_asking {lastSeen next : Option Int} {reply : Reply} :
    Paging.step py (.asking lastSeen) reply = .asking next ↔
      (turn py lastSeen reply).2 = .more next := by
  unfold Paging.step
  dsimp only
  split
  · next last hmore =>
    rw [hmore, Paging.asking.injEq, Turn.more.injEq]
  · next hmore =>
    exact iff_of_false (fun h => nomatch h) fun h => hmore next h

/-- A turn moves the cursor exactly under the condition on its page. -/
theorem moves_iff (lastSeen : Option Int) (reply : Reply) :
    (∀ next, (turn py lastSeen reply).2 = .more next → lastSeen ≠ next) ↔
      Moves py (.asking lastSeen) reply := by
  constructor
  · intro h hfollowed
    have hne := h _ ((turn_more_iff lastSeen _ reply).mpr ⟨hfollowed, rfl⟩)
    cases hlast : lastId py reply with
    | none =>
      rw [hlast, Option.none_or] at hne
      exact absurd rfl hne
    | some id =>
      rw [hlast, Option.some_or] at hne
      exact ⟨id, rfl, hne⟩
  · intro h next hnext
    obtain ⟨hfollowed, rfl⟩ := (turn_more_iff lastSeen next reply).mp hnext
    obtain ⟨id, hid, hne⟩ := h hfollowed
    rw [hid, Option.some_or]
    exact hne

/-- No request is made twice in a row exactly when every page that is followed moves the cursor. -/
theorem requests_isChain_iff (s : Paging) (replies : List Reply) :
    (requests py s replies).IsChain (· ≠ ·) ↔ Steps (Moves py) (Paging.step py) s replies := by
  induction replies generalizing s with
  | nil =>
    cases s with
    | ended => exact iff_of_true .nil trivial
    | asking lastSeen => exact iff_of_true (.singleton _) trivial
  | cons reply replies ih =>
    cases s with
    | ended =>
      have hrest := ih .ended
      have hnone : requests py .ended replies = [] := by cases replies <;> rfl
      rw [hnone] at hrest
      exact iff_of_true .nil ⟨trivial, hrest.mp .nil⟩
    | asking lastSeen =>
      have hhead : (∀ next ∈ (requests py (Paging.step py (.asking lastSeen) reply) replies).head?,
          lastSeen ≠ next) ↔ Moves py (.asking lastSeen) reply := by
        rw [← moves_iff]
        constructor
        · intro h next hnext
          apply h next
          rw [step_asking.mpr hnext]
          cases replies <;> rfl
        · intro h next hnext
          cases hstep : Paging.step py (.asking lastSeen) reply with
          | ended =>
            rw [hstep] at hnext
            cases replies <;> cases hnext
          | asking next' =>
            rw [hstep] at hnext
            have heq : next' = next := by
              cases replies <;> exact Option.some.inj hnext
            rw [← heq]
            exact h next' (step_asking.mp hstep)
      rw [requests, List.isChain_cons, hhead, ih]
      exact Iff.rfl

/-! ## A catalogue -/

/-- `id` is among the maps that a request with this cursor asks for. -/
def Older (lastSeen : Option Int) (id : Int) : Prop := ∀ after, lastSeen = some after → id < after

instance (lastSeen : Option Int) : DecidablePred (Older lastSeen) := fun id =>
  match lastSeen with
  | none => .isTrue fun _ h => nomatch h
  | some after => decidable_of_iff (id < after) ⟨fun h _ he => Option.some.inj he ▸ h, fun h => h after rfl⟩

variable (py) in
/-- A server over finitely many maps whose pages after a cursor hold only older ones: `ids` are the
    MapIds of its pages, as `int` reads them. -/
structure Catalogue where
  maps : Finset Int
  reply : ℕ → Option Int → Reply
  ids : ℕ → Option Int → List Int
  more : ℕ → Option Int → Bool
  lists : ∀ asked lastSeen, ∃ entries, reply asked lastSeen = .payload entries ∧
    truthy (field entries "More" .null) = more asked lastSeen ∧
    Clean py (Reply.payload entries).results ∧
    ((Reply.payload entries).results.filterMap (summaryOf py)).map
      (fun summary => py.intOfText summary.tmxId) = (ids asked lastSeen).map some
  mem_maps : ∀ asked lastSeen, ∀ id ∈ ids asked lastSeen, id ∈ maps
  older : ∀ asked lastSeen, ∀ id ∈ ids asked lastSeen, Older lastSeen id

namespace Catalogue

variable (s : Catalogue py)

/-- The requests that follow from one: a page with more behind it leads on from its last map. -/
inductive Visited : ℕ → Option Int → ℕ → Option Int → Prop
  | here (asked lastSeen) : Visited asked lastSeen asked lastSeen
  | there {asked lastSeen id asked' lastSeen'} : s.more asked lastSeen = true →
      (s.ids asked lastSeen).getLast? = some id → Visited (asked + 1) (some id) asked' lastSeen' →
      Visited asked lastSeen asked' lastSeen'

/-- The listing leaves nothing out: what a request asks for is on its page or older than the last
    map there, and there is more. -/
def SkipsNothing (asked : ℕ) (lastSeen : Option Int) : Prop :=
  ∀ asked' lastSeen', s.Visited asked lastSeen asked' lastSeen' → ∀ id ∈ s.maps, Older lastSeen' id →
    id ∈ s.ids asked' lastSeen' ∨
      s.more asked' lastSeen' = true ∧ ∃ last, (s.ids asked' lastSeen').getLast? = some last ∧ id < last

/-- No page has a map twice, and one that is followed ends with its oldest. -/
def OldestLast (asked : ℕ) (lastSeen : Option Int) : Prop :=
  ∀ asked' lastSeen', s.Visited asked lastSeen asked' lastSeen' → (s.ids asked' lastSeen').Nodup ∧
    (s.more asked' lastSeen' = true → ∀ last, (s.ids asked' lastSeen').getLast? = some last →
      ∀ id ∈ s.ids asked' lastSeen', last ≤ id)

variable {s}

/-- The ids of the summaries that are yielded. -/
def idsOf (py : ListingPython) (yielded : List TmxMapSummary) : List Int :=
  yielded.filterMap fun summary => py.intOfText summary.tmxId

/-- A turn against the catalogue yields its page, and goes on from the last map. -/
theorem turn_eq (asked : ℕ) (lastSeen : Option Int) :
    ∃ yielded, idsOf py yielded = s.ids asked lastSeen ∧
      turn py lastSeen (s.reply asked lastSeen) =
        (yielded, if s.more asked lastSeen = true then
            match (s.ids asked lastSeen).getLast? with
            | some last => .more (some last)
            | none => .returned
          else .returned) := by
  obtain ⟨entries, hreply, hmore, hclean, hids⟩ := s.lists asked lastSeen
  have hread : readableIds py (Reply.payload entries).results = s.ids asked lastSeen := by
    have hmap := congrArg (List.filterMap id) hids
    rw [List.filterMap_map, List.filterMap_map] at hmap
    simpa [readableIds, Function.comp_def] using hmap
  have hnone : (Reply.payload entries).results.filterMap (summaryOf py) = [] ↔
      s.ids asked lastSeen = [] := by
    have hlength := congrArg List.length hids
    rw [List.length_map, List.length_map] at hlength
    rw [← List.length_eq_zero_iff, hlength, List.length_eq_zero_iff]
  refine ⟨_, hread, ?_⟩
  rw [hreply, turn_clean hclean, hmore]
  unfold lastId
  rw [hread]
  congr 1
  cases hlast : (s.ids asked lastSeen).getLast? with
  | none =>
    rw [List.getLast?_eq_none_iff, ← hnone] at hlast
    simp [hlast]
  | some last =>
    have hne : (Reply.payload entries).results.filterMap (summaryOf py) ≠ [] := by
      rw [Ne, hnone]
      intro hnil
      rw [hnil] at hlast
      cases hlast
    simp [hne]

theorem older_trans {lastSeen : Option Int} {last id : Int} (h : Older lastSeen last)
    (hid : id < last) : Older lastSeen id := fun after hafter => lt_trans hid (h after hafter)

/-- The maps that are left below the last one of a page are fewer. -/
theorem card_older_lt {lastSeen : Option Int} {last : Int} (hmem : last ∈ s.maps)
    (hlast : Older lastSeen last) :
    (s.maps.filter (Older (some last))).card < (s.maps.filter (Older lastSeen)).card := by
  apply Finset.card_lt_card
  rw [Finset.ssubset_iff_of_subset]
  · refine ⟨last, Finset.mem_filter.mpr ⟨hmem, hlast⟩, fun hin => ?_⟩
    exact lt_irrefl last ((Finset.mem_filter.mp hin).2 last rfl)
  · intro id hid
    obtain ⟨hid, holder⟩ := Finset.mem_filter.mp hid
    exact Finset.mem_filter.mpr ⟨hid, older_trans hlast (holder last rfl)⟩

/-- What a walk from a request has done when it has returned. -/
structure Walked (asked : ℕ) (lastSeen : Option Int) (yielded : List TmxMapSummary) : Prop where
  mem : ∀ id ∈ idsOf py yielded, id ∈ s.maps ∧ Older lastSeen id
  all : s.SkipsNothing asked lastSeen → ∀ id ∈ s.maps, Older lastSeen id → id ∈ idsOf py yielded
  once : s.SkipsNothing asked lastSeen →
    ((∀ id ∈ s.maps, Older lastSeen id → (idsOf py yielded).count id = 1) ↔
      s.OldestLast asked lastSeen)

theorem oldestLast_end {asked : ℕ} {lastSeen : Option Int}
    (hend : s.more asked lastSeen = true → (s.ids asked lastSeen).getLast? = none) :
    s.OldestLast asked lastSeen ↔ (s.ids asked lastSeen).Nodup := by
  constructor
  · exact fun hpages => (hpages _ _ (.here asked lastSeen)).1
  · intro hnodup asked' lastSeen' hreach
    cases hreach with
    | here =>
      refine ⟨hnodup, fun hmore last hlast => ?_⟩
      rw [hend hmore] at hlast
      cases hlast
    | there hmore hlast =>
      rw [hend hmore] at hlast
      cases hlast

theorem oldestLast_more {asked : ℕ} {lastSeen : Option Int} {last : Int}
    (hmore : s.more asked lastSeen = true) (hlast : (s.ids asked lastSeen).getLast? = some last) :
    s.OldestLast asked lastSeen ↔
      ((s.ids asked lastSeen).Nodup ∧ ∀ id ∈ s.ids asked lastSeen, last ≤ id) ∧
        s.OldestLast (asked + 1) (some last) := by
  constructor
  · intro hpages
    obtain ⟨hnodup, holdest⟩ := hpages _ _ (.here asked lastSeen)
    exact ⟨⟨hnodup, holdest hmore last hlast⟩, fun asked' lastSeen' hreach =>
      hpages asked' lastSeen' (.there hmore hlast hreach)⟩
  · intro hpages asked' lastSeen' hreach
    obtain ⟨⟨hnodup, holdest⟩, hrest⟩ := hpages
    cases hreach with
    | here =>
      refine ⟨hnodup, fun _ last' hlast' => ?_⟩
      rw [hlast] at hlast'
      rwa [← Option.some.inj hlast']
    | there _ hlast' hreach =>
      rw [hlast] at hlast'
      obtain rfl := Option.some.inj hlast'
      exact hrest _ _ hreach

/-- A page with nothing behind it. -/
theorem walked_last {asked : ℕ} {lastSeen : Option Int} {yielded : List TmxMapSummary}
    (hids : idsOf py yielded = s.ids asked lastSeen)
    (hend : s.more asked lastSeen = true → (s.ids asked lastSeen).getLast? = none) :
    s.Walked asked lastSeen yielded := by
  have hall : s.SkipsNothing asked lastSeen →
      ∀ id ∈ s.maps, Older lastSeen id → id ∈ idsOf py yielded := by
    intro hskips id hid holder
    rw [hids]
    obtain hin | ⟨hmore, last, hlast, -⟩ := hskips _ _ (.here asked lastSeen) id hid holder
    · exact hin
    · rw [hend hmore] at hlast
      cases hlast
  refine ⟨fun id hid => ?_, hall, fun hskips => ?_⟩
  · rw [hids] at hid
    exact ⟨s.mem_maps _ _ id hid, s.older _ _ id hid⟩
  · have hin := hall hskips
    rw [oldestLast_end hend, List.nodup_iff_count_eq_one]
    rw [hids] at hin ⊢
    exact ⟨fun honce id hid => honce id (s.mem_maps _ _ id hid) (s.older _ _ id hid),
      fun hone id hid holder => hone id (hin id hid holder)⟩

theorem older_of_lt {last id : Int} (h : id < last) : Older (some last) id := by
  intro after hafter
  rwa [← Option.some.inj hafter]

/-- A page with more behind it brings each map once, together with the walk from its last map,
    exactly when no map is on it twice, it ends with its oldest, and the rest of the walk is so. -/
theorem once_more {asked : ℕ} {lastSeen : Option Int} {rest : List TmxMapSummary} {last : Int}
    (hmore : s.more asked lastSeen = true) (hlast : (s.ids asked lastSeen).getLast? = some last)
    (hrest : s.Walked (asked + 1) (some last) rest)
    (hskips : s.SkipsNothing asked lastSeen) (hskipsRest : s.SkipsNothing (asked + 1) (some last)) :
    (∀ id ∈ s.maps, Older lastSeen id →
        (s.ids asked lastSeen).count id + (idsOf py rest).count id = 1) ↔
      s.OldestLast asked lastSeen := by
  have holderLast := s.older asked lastSeen last (List.mem_of_getLast? hlast)
  rw [oldestLast_more hmore hlast, ← hrest.once hskipsRest, List.nodup_iff_count_eq_one]
  constructor
  · intro hcount
    have hpage : ∀ id ∈ s.ids asked lastSeen,
        (s.ids asked lastSeen).count id + (idsOf py rest).count id = 1 := fun id hin =>
      hcount id (s.mem_maps _ _ id hin) (s.older _ _ id hin)
    -- what is older than the last map comes again
    have hagain : ∀ id ∈ s.maps, id < last → 1 ≤ (idsOf py rest).count id := by
      intro id hid hlt
      exact List.one_le_count_iff.mpr (hrest.all hskipsRest id hid (older_of_lt hlt))
    refine ⟨⟨fun id hin => ?_, fun id hin => ?_⟩, fun id hid holder => ?_⟩
    · have hone := hpage id hin
      have hsome := List.one_le_count_iff.mpr hin
      omega
    · by_contra hlt
      have hone := hpage id hin
      have hsome := List.one_le_count_iff.mpr hin
      have hlater := hagain id (s.mem_maps _ _ id hin) (not_le.mp hlt)
      omega
    · have hlt := holder last rfl
      have hone := hcount id hid (older_trans holderLast hlt)
      have hlater := hagain id hid hlt
      omega
  · intro hpages id hid holder
    obtain ⟨⟨hnodup, holdest⟩, honce⟩ := hpages
    by_cases hin : id ∈ s.ids asked lastSeen
    · have hnot : id ∉ idsOf py rest := by
        intro hlater
        have hlt := (hrest.mem id hlater).2 last rfl
        have hle := holdest id hin
        omega
      rw [hnodup id hin, List.count_eq_zero.mpr hnot]
    · obtain hpage | ⟨-, last', hlast', hlt⟩ := hskips _ _ (.here asked lastSeen) id hid holder
      · exact absurd hpage hin
      · rw [hlast] at hlast'
        obtain rfl := Option.some.inj hlast'
        rw [List.count_eq_zero.mpr hin, honce id hid (older_of_lt hlt)]

/-- A page with more behind it, and the walk from its last map. -/
theorem walked_more {asked : ℕ} {lastSeen : Option Int} {page rest : List TmxMapSummary} {last : Int}
    (hids : idsOf py page = s.ids asked lastSeen) (hmore : s.more asked lastSeen = true)
    (hlast : (s.ids asked lastSeen).getLast? = some last)
    (hrest : s.Walked (asked + 1) (some last) rest) : s.Walked asked lastSeen (page ++ rest) := by
  have happend : idsOf py (page ++ rest) = s.ids asked lastSeen ++ idsOf py rest := by
    unfold idsOf at hids ⊢
    rw [List.filterMap_append, hids]
  have hskipsRest : s.SkipsNothing asked lastSeen → s.SkipsNothing (asked + 1) (some last) :=
    fun hskips asked' lastSeen' hreach => hskips asked' lastSeen' (.there hmore hlast hreach)
  refine ⟨fun id hid => ?_, fun hskips id hid holder => ?_, fun hskips => ?_⟩
  · rw [happend, List.mem_append] at hid
    obtain hid | hid := hid
    · exact ⟨s.mem_maps _ _ id hid, s.older _ _ id hid⟩
    · obtain ⟨hmaps, holder⟩ := hrest.mem id hid
      have holderLast := s.older asked lastSeen last (List.mem_of_getLast? hlast)
      exact ⟨hmaps, older_trans holderLast (holder last rfl)⟩
  · rw [happend, List.mem_append]
    obtain hin | ⟨-, last', hlast', hlt⟩ := hskips _ _ (.here asked lastSeen) id hid holder
    · exact .inl hin
    · rw [hlast] at hlast'
      obtain rfl := Option.some.inj hlast'
      exact .inr (hrest.all (hskipsRest hskips) id hid (older_of_lt hlt))
  · rw [← once_more hmore hlast hrest hskips (hskipsRest hskips), happend]
    simp only [List.count_append]

/-- A walk through the catalogue comes to its end. -/
theorem exists_walked (asked : ℕ) (lastSeen : Option Int) :
    ∃ fuel yielded, walk py s.reply fuel asked lastSeen = (yielded, .returned) ∧
      s.Walked asked lastSeen yielded := by
  induction hcard : (s.maps.filter (Older lastSeen)).card using Nat.strong_induction_on
    generalizing asked lastSeen with
  | _ n ih =>
    obtain ⟨page, hids, hturn⟩ := turn_eq (s := s) asked lastSeen
    by_cases hmore : s.more asked lastSeen = true
    · rw [if_pos hmore] at hturn
      cases hlast : (s.ids asked lastSeen).getLast? with
      | none =>
        rw [hlast] at hturn
        refine ⟨1, page, ?_, walked_last hids fun _ => hlast⟩
        simp only [walk, hturn]
      | some last =>
        rw [hlast] at hturn
        have hmem : last ∈ s.ids asked lastSeen := List.mem_of_getLast? hlast
        have hfewer := card_older_lt (s.mem_maps _ _ last hmem) (s.older _ _ last hmem)
        rw [hcard] at hfewer
        obtain ⟨fuel, rest, hwalk, hrest⟩ := ih _ hfewer (asked + 1) (some last) rfl
        refine ⟨fuel + 1, page ++ rest, ?_, walked_more hids hmore hlast hrest⟩
        simp only [walk, hturn, hwalk]
    · rw [if_neg hmore] at hturn
      refine ⟨1, page, ?_, walked_last hids fun h => absurd h hmore⟩
      simp only [walk, hturn]

end Catalogue

/-! ## Random requests -/

variable (py) in
/-- The first `n` turns of `iter_random_summaries(count=count)`. -/
def sampling (count : Int) (replies : ℕ → Reply) : ℕ → Sampling
  | 0 => Sampling.start count
  | n + 1 => (sampling count replies n).step py count (replies n)

variable (py) in
/-- An entry with a MapId. -/
def givesMap (reply : Reply) : Bool :=
  match randomTurn py reply with
  | .yields _ => true
  | _ => false

variable (py) in
/-- The maps among the first `n` replies. -/
def mapsGiven (replies : ℕ → Reply) (n : ℕ) : ℕ :=
  (List.range n).countP fun k => givesMap py (replies k)

theorem mapsGiven_succ (replies : ℕ → Reply) (n : ℕ) :
    mapsGiven py replies (n + 1) =
      mapsGiven py replies n + if givesMap py (replies n) = true then 1 else 0 := by
  unfold mapsGiven
  rw [List.range_succ, List.countP_append, List.countP_singleton]

variable (py) in
/-- Neither enough maps nor a reply that ends the loop. -/
def Wanting (count : Int) (replies : ℕ → Reply) (n : ℕ) : Prop :=
  (mapsGiven py replies n : Int) < count ∧ ∀ k, k < n → randomTurn py (replies k) ≠ .ends

theorem wanting_of_succ {count : Int} {replies : ℕ → Reply} {n : ℕ}
    (h : Wanting py count replies (n + 1)) : Wanting py count replies n := by
  obtain ⟨hmaps, hends⟩ := h
  rw [mapsGiven_succ] at hmaps
  refine ⟨?_, fun k hk => hends k (Nat.lt_succ_of_lt hk)⟩
  push_cast at hmaps
  split at hmaps
  · omega
  · omega

/-- The loop goes on while it is wanting; each request has yielded a map or nothing. -/
theorem sampling_active (count : Int) (replies : ℕ → Reply) (n : ℕ) :
    ((sampling py count replies n).active = true ↔ Wanting py count replies n) ∧
      ((sampling py count replies n).active = true →
        (sampling py count replies n).emitted = mapsGiven py replies n ∧
          (sampling py count replies n).emitted + (sampling py count replies n).fruitless = n) := by
  induction n with
  | zero =>
    refine ⟨?_, fun _ => ⟨rfl, rfl⟩⟩
    unfold Wanting
    simp [sampling, Sampling.start, mapsGiven]
  | succ n ih =>
    obtain ⟨hactive, hcounts⟩ := ih
    rw [sampling]
    unfold Sampling.step
    by_cases hgoes : (sampling py count replies n).active = true
    · obtain ⟨hemitted, htotal⟩ := hcounts hgoes
      obtain ⟨hmaps, hends⟩ := hactive.mp hgoes
      have hlast : ∀ turn, randomTurn py (replies n) = turn → turn ≠ .ends →
          ∀ k, k < n + 1 → randomTurn py (replies k) ≠ .ends := by
        intro turn hturn hne k hk
        rcases Nat.lt_succ_iff_lt_or_eq.mp hk with hlt | rfl
        · exact hends k hlt
        · rw [hturn]
          exact hne
      have hnext := @mapsGiven_succ py replies n
      rw [if_pos hgoes]
      cases hturn : randomTurn py (replies n) with
      | yields summary =>
        have hgiven : givesMap py (replies n) = true := by simp only [givesMap, hturn]
        rw [if_pos hgiven] at hnext
        dsimp only
        refine ⟨?_, fun _ => ⟨by omega, by omega⟩⟩
        rw [decide_eq_true_eq, hemitted]
        constructor
        · intro hlt
          exact ⟨by omega, hlast _ hturn (by simp)⟩
        · intro hwanting
          have hlt := hwanting.1
          omega
      | again =>
        have hgiven : givesMap py (replies n) = false := by simp only [givesMap, hturn]
        rw [hgiven, if_neg Bool.false_ne_true] at hnext
        dsimp only
        refine ⟨iff_of_true hgoes ⟨by omega, hlast _ hturn (by simp)⟩, fun _ => ⟨by omega, by omega⟩⟩
      | ends =>
        dsimp only
        refine ⟨iff_of_false Bool.false_ne_true fun hwanting => ?_, fun h => absurd h Bool.false_ne_true⟩
        exact hwanting.2 n (Nat.lt_succ_self n) hturn
    · rw [if_neg hgoes]
      refine ⟨iff_of_false hgoes fun hwanting => ?_, fun h => absurd h hgoes⟩
      exact hgoes (hactive.mpr (wanting_of_succ hwanting))

theorem fruitless_le (count : Int) (replies : ℕ → Reply) (n : ℕ) :
    (sampling py count replies n).fruitless ≤ n := by
  induction n with
  | zero => exact le_refl 0
  | succ n ih =>
    rw [sampling]
    unfold Sampling.step
    split
    · split
      · exact Nat.le_succ_of_le ih
      · exact Nat.succ_le_succ ih
      · exact Nat.succ_le_succ ih
    · exact Nat.le_succ_of_le ih

theorem sampling_ended {count : Int} {replies : ℕ → Reply} {n : ℕ}
    (h : (sampling py count replies n).active = false) (m : ℕ) :
    sampling py count replies (n + m) = sampling py count replies n := by
  induction m with
  | zero => rfl
  | succ m ih =>
    rw [← Nat.add_assoc, sampling, ih]
    unfold Sampling.step
    rw [h, if_neg Bool.false_ne_true]

/-- The requests that yield nothing are bounded exactly when the server ends the loop at some time
    or sends as many maps as are asked for. -/
theorem fruitless_bounded_iff (count : Int) (replies : ℕ → Reply) :
    (∃ bound, ∀ n, (sampling py count replies n).fruitless ≤ bound) ↔
      (∃ n, randomTurn py (replies n) = .ends) ∨ ∃ n, count ≤ mapsGiven py replies n := by
  constructor
  · intro hbounded
    obtain ⟨bound, hbound⟩ := hbounded
    by_contra hnever
    rw [not_or, not_exists, not_exists] at hnever
    obtain ⟨hends, hmaps⟩ := hnever
    have hwanting : ∀ n, Wanting py count replies n := fun n =>
      ⟨not_le.mp (hmaps n), fun k _ => hends k⟩
    -- after that many requests there are more without a map than the bound
    have hlate := hbound (bound + count.toNat + 1)
    obtain ⟨hactive, hcounts⟩ := @sampling_active py count replies (bound + count.toNat + 1)
    obtain ⟨hemitted, htotal⟩ := hcounts (hactive.mpr (hwanting _))
    have hfew := (hwanting (bound + count.toNat + 1)).1
    omega
  · intro hends
    obtain ⟨n, hn⟩ : ∃ n, ¬ Wanting py count replies n := by
      rcases hends with ⟨n, hn⟩ | ⟨n, hn⟩
      · exact ⟨n + 1, fun hwanting => hwanting.2 n (Nat.lt_succ_self n) hn⟩
      · exact ⟨n, fun hwanting => absurd hwanting.1 (not_lt.mpr hn)⟩
    have hended : (sampling py count replies n).active = false := by
      rw [← Bool.not_eq_true, (sampling_active count replies n).1]
      exact hn
    refine ⟨n, fun m => ?_⟩
    rcases Nat.le_total m n with hle | hle
    · exact le_trans (fruitless_le count replies m) hle
    · obtain ⟨k, rfl⟩ := Nat.exists_eq_add_of_le hle
      rw [sampling_ended hended]
      exact fruitless_le count replies n

/-! ## The listing -/

/-- Progress of the iterators. No request comes twice in a row exactly when every page that is
    followed moves the cursor. Over a catalogue whose pages hold only older maps the iteration
    returns, and when nothing is skipped it yields each map once exactly when no page has a map twice
    and each that is followed ends with its oldest. The random requests without a map are bounded
    exactly when the server ends them or sends enough maps. -/
theorem listing_progress_iff (py : ListingPython) :
    (∀ start replies, (requests py (.asking start) replies).IsChain (· ≠ ·) ↔
      Steps (Moves py) (Paging.step py) (.asking start) replies) ∧
    (∀ (s : Catalogue py) (start : Option Int), ∃ fuel yielded,
      walk py s.reply fuel 0 start = (yielded, .returned) ∧
        (s.SkipsNothing 0 start →
          ((∀ id ∈ s.maps, Older start id → (Catalogue.idsOf py yielded).count id = 1) ↔
            s.OldestLast 0 start))) ∧
    ∀ count replies, (∃ bound, ∀ n, (sampling py count replies n).fruitless ≤ bound) ↔
      (∃ n, randomTurn py (replies n) = .ends) ∨ ∃ n, count ≤ mapsGiven py replies n := by
  refine ⟨fun start replies => requests_isChain_iff _ replies, fun s start => ?_,
    fruitless_bounded_iff⟩
  obtain ⟨fuel, yielded, hwalk, hwalked⟩ := Catalogue.exists_walked (s := s) 0 start
  exact ⟨fuel, yielded, hwalk, hwalked.once⟩

end

/-- `int` of a text. -/
def plainPython : ListingPython where
  loads _ := .error .jsonDecodeError
  intOfText text := Lib.PyText.readInt (Lib.Words.strip Lib.PyText.isSpace text.toList)
  digest _ := 0
  str _ := "?"

/-- A page whose only MapId is no number. -/
def stuckPage : Reply :=
  .payload [("Results", .arr [.obj [("MapId", .str "abc")]]), ("More", .bool true)]

theorem stuck_page_asked_again :
    requests plainPython (.asking none) [stuckPage, stuckPage] = [none, none, none] ∧
      ¬ (requests plainPython (.asking none) [stuckPage, stuckPage]).IsChain (· ≠ ·) := by
  have hrequests : requests plainPython (.asking none) [stuckPage, stuckPage] = [none, none, none] := by
    decide +kernel
  refine ⟨hrequests, ?_⟩
  rw [hrequests]
  decide

def pageOf (ids : List String) (more : Bool) : Reply :=
  .payload [("Results", .arr (ids.map fun id => .obj [("MapId", .str id)])), ("More", .bool more)]

/-- The maps 2 and 3, on a page that does not end with the older one. -/
def unsorted : ℕ → Option Int → Reply
  | _, none => pageOf ["2", "3"] true
  | _, some 3 => pageOf ["2"] false
  | _, some _ => pageOf [] false

example : (walk plainPython unsorted 2 0 none).1.map (·.tmxId) = ["2", "3", "2"] := by
  decide +kernel

end TraxMania.Ingestion.Tmx
