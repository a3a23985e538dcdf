import Reparse.Proofs.Parse.EventShape
import Reparse.Proofs.Parse.Handles
import Reparse.Proofs.Parse.Skeleton

/-!
# Blank openings between events

An opening that was given up stays in the record if events were added behind it. It is blank and
opens nothing. A record may have such openings between the events of another one
(`Event.Interspersed`): its events are those of the other one, in the same order, and each of them
is to be wrapped in the same event as there, or in nothing there and in one of the blank openings
here.

Both records fold to the same trees (`Event.Interspersed.exists_fold`), if wrappers lead to openings
(`Event.Linked`); the fold has no fault then.
-/

namespace Reparse

namespace Event

variable {events others : Array Event} {event other : Event} {index place : Nat}

/-! ## Wrappers that are openings -/

/-- The event opens a node, if it is completed. -/
def Opens (event : Event) : Prop :=
  ∃ symbol wrapper field state, event = opening symbol wrapper field state

/-- A wrapper at this distance is an opening further on. -/
def LeadsOn (events : Array Event) (index : Nat) (wrapper : Option Nat) : Prop :=
  ∀ distance, wrapper = some distance →
    0 < distance ∧ ∃ event, events[index + distance]? = some event ∧ event.Opens

/-- All wrappers are openings further on. -/
def Linked (events : Array Event) : Prop :=
  ∀ index event, events[index]? = some event → LeadsOn events index event.wrapper?

/-- Some event is to be wrapped in the one at the place. -/
def Wraps (events : Array Event) (place : Nat) : Prop :=
  ∃ index event distance, events[index]? = some event ∧ event.wrapper? = some distance ∧
    index + distance = place

theorem wraps_iff : Wraps events place ↔ ∃ index < events.size,
    (events[index]?.bind wrapper?).map (index + ·) = some place := by
  constructor
  · rintro ⟨index, event, distance, found, own, reached⟩
    refine ⟨index, (Array.getElem?_eq_some_iff.mp found).1, ?_⟩
    rw [found, Option.bind_some, own, Option.map_some, reached]
  · rintro ⟨index, _, reached⟩
    rcases Option.map_eq_some_iff.mp reached with ⟨distance, bound, same⟩
    rcases Option.bind_eq_some_iff.mp bound with ⟨event, found, own⟩
    exact ⟨index, event, distance, found, own, same⟩

instance decidableWraps (events : Array Event) (place : Nat) : Decidable (Wraps events place) :=
  decidable_of_iff _ wraps_iff.symm

/-- No event is to be wrapped yet. -/
def Plain (events : Array Event) : Prop := ∀ event ∈ events, event.wrapper? = none

theorem plain_empty : Plain #[] := by simp [Plain]

theorem plain_singleton (plain : event.wrapper? = none) : Plain #[event] := by
  intro other member
  rwa [Array.mem_singleton.mp member]

theorem Plain.append (first : Plain events) (second : Plain others) : Plain (events ++ others) :=
  fun event member => (Array.mem_append.mp member).elim (first event) (second event)

theorem Plain.push (plain : Plain events) (last : event.wrapper? = none) :
    Plain (events.push event) := by
  rw [Array.push_eq_append]
  exact plain.append (plain_singleton last)

theorem blank_opens : blank.Opens := ⟨_, _, _, _, rfl⟩

namespace LeadsOn

variable {wrapper : Option Nat}

theorem none : LeadsOn events index none := nofun

theorem inside {distance : Nat} (leads : LeadsOn events index (some distance)) :
    index + distance < events.size := by
  rcases leads distance rfl with ⟨_, event, found, _⟩
  exact (Array.getElem?_eq_some_iff.mp found).1

theorem append (leads : LeadsOn events index wrapper) (added : Array Event) :
    LeadsOn (events ++ added) index wrapper := by
  intro distance same
  rcases leads distance same with ⟨further, event, found, opens⟩
  exact ⟨further, event, getElem?_append_of_found found, opens⟩

/-- An opening may be replaced by another one. -/
theorem set (leads : LeadsOn events index wrapper) (found : events[place]? = some event)
    (opens : event.Opens → other.Opens) :
    LeadsOn (events.setIfInBounds place other) index wrapper := by
  intro distance same
  rcases leads distance same with ⟨further, event, there, opening⟩
  refine ⟨further, ?_⟩
  by_cases here : place = index + distance
  · rw [← here, found, Option.some.injEq] at there
    subst there
    exact ⟨other, by rw [← here, getElem?_set_of_found found], opens opening⟩
  · exact ⟨event, by rw [Array.getElem?_setIfInBounds_ne here, there], opening⟩

end LeadsOn

namespace Linked

theorem append {added : Array Event} (linked : Linked events)
    (plain : Plain added) : Linked (events ++ added) := by
  intro index event found
  by_cases early : index < events.size
  · rw [Array.getElem?_append_left early] at found
    exact (linked index event found).append added
  · rw [Array.getElem?_append_right (Nat.le_of_not_lt early)] at found
    rw [plain event (Array.mem_of_getElem? found)]
    exact .none

theorem set (linked : Linked events) (found : events[place]? = some event)
    (opens : event.Opens → other.Opens) (leads : LeadsOn events place other.wrapper?) :
    Linked (events.setIfInBounds place other) := by
  intro index next there
  by_cases here : place = index
  · subst here
    rw [getElem?_set_of_found found, Option.some.injEq] at there
    subst there
    exact leads.set found opens
  · rw [Array.getElem?_setIfInBounds_ne here] at there
    exact (linked index next there).set found opens

/-- An opening that is no wrapper may be taken away from the end. -/
theorem pop (linked : Linked events) (last : place + 1 = events.size)
    (spared : ¬Wraps events place) : Linked events.pop := by
  intro index event found distance same
  rw [Array.getElem?_pop] at found
  split at found
  · rcases linked index event found distance same with ⟨further, target, there, opens⟩
    refine ⟨further, target, ?_, opens⟩
    have inside := (Array.getElem?_eq_some_iff.mp there).1
    have elsewhere : index + distance ≠ place := fun here =>
      spared ⟨index, event, distance, found, same, here⟩
    rw [Array.getElem?_pop, if_pos (by omega), there]
  · cases found

end Linked

/-! ## Records with blank openings between -/

/-- How far behind an event its wrapper opens where blank openings stand between the events: either
it is the same wrapper, or one of the blank openings. -/
inductive Link (image : Nat → Nat) (size : Nat) (others : Array Event) (index : Nat)
    (event : Event) : Option Nat → Prop where
  | bare (own : event.wrapper? = none) : Link image size others index event none
  | moved {distance : Nat} (own : event.wrapper? = some distance)
      (inside : index + distance < size) :
      Link image size others index event (some (image (index + distance) - image index))
  | idle {distance : Nat} (own : event.wrapper? = none) (complete : event.IsComplete)
      (further : 0 < distance) (stands : others[image index + distance]? = some blank)
      (apart : ∀ place < size, image place ≠ image index + distance) :
      Link image size others index event (some distance)

namespace Link

variable {image : Nat → Nat} {size : Nat} {wrapper : Option Nat}

/-- The link lasts while the blank openings between the events stay where they are. -/
theorem transfer {after : Array Event} (link : Link image size others index event wrapper)
    (still : ∀ place, others[place]? = some blank → (∀ before < size, image before ≠ place) →
      after[place]? = some blank) : Link image size after index event wrapper := by
  cases link with
  | bare own => exact .bare own
  | moved own inside => exact .moved own inside
  | idle own complete further stands apart =>
      exact .idle own complete further (still _ stands apart) apart

/-- An opening at the end that is no wrapper may be left out. -/
theorem pop (link : Link image events.size others index event wrapper)
    (last : place + 1 = events.size) (found : events[index]? = some event)
    (spared : ¬Wraps events place) : Link image events.pop.size others index event wrapper := by
  rw [Array.size_pop]
  cases link with
  | bare own => exact .bare own
  | @moved distance own inside =>
      have elsewhere : index + distance ≠ place := fun here =>
        spared ⟨index, event, distance, found, own, here⟩
      exact .moved own (by omega)
  | idle own complete further stands apart =>
      exact .idle own complete further stands fun before inside => apart before (by omega)

/-- The link of an event is that of another one with the same wrapper. -/
theorem replace (link : Link image size others index event wrapper)
    (same : other.wrapper? = event.wrapper?) (complete : event.IsComplete → other.IsComplete) :
    Link image size others index other wrapper := by
  cases link with
  | bare own => exact .bare (same.trans own)
  | moved own inside => exact .moved (same.trans own) inside
  | idle own isComplete further stands apart =>
      exact .idle (same.trans own) (complete isComplete) further stands apart

end Link

/-- The second record has the events of the first one, each at the image of its place, and nothing
but blank openings between them. -/
structure Interspersed (image : Nat → Nat) (events others : Array Event) : Prop where
  increasing : ∀ first second, first < second → second < events.size → image first < image second
  inside : ∀ place < events.size, image place < others.size
  stands : ∀ place event, events[place]? = some event → ∃ wrapper,
    Link image events.size others place event wrapper ∧
      others[image place]? = some (event.withWrapper wrapper)
  idle : ∀ place < others.size, (∀ before < events.size, image before ≠ place) →
    others[place]? = some blank

theorem withWrapper_wrapper (event : Event) : event.withWrapper event.wrapper? = event := by
  cases event <;> rfl

theorem withWrapper_none (plain : event.wrapper? = none) : event.withWrapper none = event := by
  rw [← plain, withWrapper_wrapper]

theorem withWrapper_withWrapper (event : Event) (first second : Option Nat) :
    (event.withWrapper first).withWrapper second = event.withWrapper second := by
  cases event <;> rfl

/-- A record whose wrappers are openings has nothing between its own events. -/
theorem interspersed_refl (linked : Linked events) : Interspersed id events events where
  increasing _ _ before _ := before
  inside _ inside := inside
  stands place event found := by
    refine ⟨event.wrapper?, ?_, by rw [withWrapper_wrapper]; exact found⟩
    cases own : event.wrapper? with
    | none => exact .bare own
    | some distance =>
        have moved := @Link.moved id events.size events place event distance own
          (own ▸ linked place event found).inside
        rw [id, id, Nat.add_sub_cancel_left] at moved
        exact moved
  idle place inside apart := absurd rfl (apart place inside)

/-- The places in a record to which more was added, if they were the images before. -/
def extend (image : Nat → Nat) (size other place : Nat) : Nat :=
  if place < size then image place else other + (place - size)

theorem extend_of_lt {image : Nat → Nat} {size : Nat} (early : place < size) (other : Nat) :
    extend image size other place = image place := if_pos early

theorem extend_size (image : Nat → Nat) (size other : Nat) :
    extend image size other size = other := by
  simp [extend]

theorem extend_ne {image : Nat → Nat} {size other : Nat} (inside : place < other)
    (apart : ∀ before < size, image before ≠ place) (before : Nat) :
    extend image size other before ≠ place := by
  unfold extend
  split
  · rename_i early
    exact apart before early
  · omega

/-- The link of an event stays as it is where both records grow at the end. -/
theorem Link.append {image : Nat → Nat} {size longer : Nat} {wrapper : Option Nat}
    (link : Link image size others index event wrapper) (early : index < size)
    (le : size ≤ longer) (added : Array Event) :
    Link (extend image size others.size) longer (others ++ added) index event wrapper := by
  cases link with
  | bare own => exact .bare own
  | @moved distance own inside =>
      have moved := @Link.moved (extend image size others.size) longer (others ++ added) index event
        distance own (by omega)
      rwa [extend_of_lt inside, extend_of_lt early] at moved
  | @idle distance own complete further stands apart =>
      have within := (Array.getElem?_eq_some_iff.mp stands).1
      refine .idle own complete further ?_ fun before _ => ?_
      · rw [extend_of_lt early]
        exact getElem?_append_of_found stands
      · rw [extend_of_lt early]
        exact extend_ne within apart before

namespace Interspersed

variable {image : Nat → Nat}

theorem injective (interspersed : Interspersed image events others) {first second : Nat}
    (inFirst : first < events.size) (inSecond : second < events.size)
    (same : image first = image second) : first = second := by
  rcases Nat.lt_trichotomy first second with before | equal | behind
  · have := interspersed.increasing first second before inSecond
    omega
  · exact equal
  · have := interspersed.increasing second first behind inFirst
    omega

/-- A blank opening has no wrapper in either record. -/
theorem blank_stands (interspersed : Interspersed image events others)
    (found : events[place]? = some blank) : others[image place]? = some blank := by
  rcases interspersed.stands place blank found with ⟨wrapper, link, there⟩
  cases link with
  | bare => exact there
  | moved own => cases own
  | idle _ complete => cases complete

/-- What is a wrapper in the second record is one in the first. -/
theorem wraps (interspersed : Interspersed image events others) (inside : place < events.size)
    (wraps : Wraps others (image place)) : Wraps events place := by
  rcases wraps with ⟨index, event, distance, found, own, reached⟩
  by_cases stands : ∃ before < events.size, image before = index
  · rcases stands with ⟨before, within, rfl⟩
    have original := Array.getElem?_eq_getElem within
    rcases interspersed.stands before _ original with ⟨wrapper, link, there⟩
    rw [there, Option.some.injEq] at found
    subst found
    cases link with
    | bare unwrapped =>
        rw [withWrapper_none unwrapped, unwrapped] at own
        cases own
    | @moved further wrapped target =>
        rw [wrapper_withWrapper (ne_closing_of_wrapper wrapped), Option.some.injEq] at own
        refine ⟨before, _, further, original, wrapped, interspersed.injective target inside ?_⟩
        have le : image before ≤ image (before + further) := by
          rcases Nat.eq_zero_or_pos further with rfl | positive
          · exact Nat.le_refl _
          · exact Nat.le_of_lt (interspersed.increasing before _ (by omega) target)
        omega
    | idle _ complete _ _ apart =>
        rw [wrapper_withWrapper complete.ne_closing, Option.some.injEq] at own
        subst own
        exact absurd reached.symm (apart place inside)
  · have idle := interspersed.idle index (Array.getElem?_eq_some_iff.mp found).1
      fun before inside same => stands ⟨before, inside, same⟩
    rw [found, Option.some.injEq] at idle
    subst idle
    cases own

/-- The same is added to both records. -/
theorem append (interspersed : Interspersed image events others) {added : Array Event}
    (plain : Plain added) :
    Interspersed (extend image events.size others.size) (events ++ added) (others ++ added) where
  increasing first second before within := by
    rw [Array.size_append] at within
    unfold extend
    split
    · split
      · rename_i inside
        exact interspersed.increasing first second before inside
      · rename_i inside _
        have := interspersed.inside first inside
        omega
    · rw [if_neg (by omega)]
      omega
  inside place within := by
    rw [Array.size_append] at within ⊢
    unfold extend
    split
    · rename_i inside
      have := interspersed.inside place inside
      omega
    · omega
  stands place event found := by
    by_cases early : place < events.size
    · rw [Array.getElem?_append_left early] at found
      rcases interspersed.stands place event found with ⟨wrapper, link, there⟩
      rw [extend_of_lt early]
      exact ⟨wrapper, link.append early (by rw [Array.size_append]; omega) added,
        getElem?_append_of_found there⟩
    · have late := Nat.le_of_not_lt early
      rw [Array.getElem?_append_right late] at found
      have own := plain event (Array.mem_of_getElem? found)
      refine ⟨none, .bare own, ?_⟩
      rw [extend, if_neg early, Array.getElem?_append_right (by omega), Nat.add_sub_cancel_left,
        withWrapper_none own, found]
  idle place within apart := by
    rw [Array.size_append] at within
    by_cases early : place < others.size
    · refine getElem?_append_of_found (interspersed.idle place early fun before inside => ?_)
      have elsewhere := apart before (by rw [Array.size_append]; omega)
      rwa [extend_of_lt inside] at elsewhere
    · have added := apart (events.size + (place - others.size)) (by rw [Array.size_append]; omega)
      rw [extend, if_neg (by omega)] at added
      omega

/-- An event is replaced in both records. -/
theorem set (interspersed : Interspersed image events others) (inside : index < events.size)
    {wrapper : Option Nat} (link : Link image events.size others index other wrapper) :
    Interspersed image (events.setIfInBounds index other)
      (others.setIfInBounds (image index) (other.withWrapper wrapper)) where
  increasing first second before within :=
    interspersed.increasing first second before (Array.size_setIfInBounds ▸ within)
  inside place within := by
    rw [Array.size_setIfInBounds] at within ⊢
    exact interspersed.inside place within
  stands place event found := by
    rw [Array.size_setIfInBounds]
    -- none of the blank openings between is replaced
    have onward (place : Nat) (stands : others[place]? = some blank)
        (apart : ∀ before < events.size, image before ≠ place) :
        (others.setIfInBounds (image index) (other.withWrapper wrapper))[place]? = some blank := by
      rw [Array.getElem?_setIfInBounds_ne (apart index inside), stands]
    by_cases here : index = place
    · subst here
      rw [Array.getElem?_setIfInBounds_self_of_lt inside, Option.some.injEq] at found
      subst found
      exact ⟨wrapper, link.transfer onward,
        Array.getElem?_setIfInBounds_self_of_lt (interspersed.inside index inside)⟩
    · rw [Array.getElem?_setIfInBounds_ne here] at found
      rcases interspersed.stands place event found with ⟨wrapper, link, there⟩
      refine ⟨wrapper, link.transfer onward, ?_⟩
      have elsewhere : image index ≠ image place := fun same =>
        here (interspersed.injective inside (Array.getElem?_eq_some_iff.mp found).1 same)
      rw [Array.getElem?_setIfInBounds_ne elsewhere, there]
  idle place within apart := by
    rw [Array.size_setIfInBounds] at within apart
    rw [Array.getElem?_setIfInBounds_ne (apart index inside)]
    exact interspersed.idle place within apart

/-- An opening at the end is taken away from both records. -/
theorem pop (interspersed : Interspersed image events others) (last : index + 1 = events.size)
    (both : image index + 1 = others.size) (spared : ¬Wraps events index) :
    Interspersed image events.pop others.pop where
  increasing first second before within :=
    interspersed.increasing first second before (by rw [Array.size_pop] at within; omega)
  inside place within := by
    rw [Array.size_pop] at within ⊢
    have := interspersed.increasing place index (by omega) (by omega)
    omega
  stands place event found := by
    rw [Array.getElem?_pop] at found
    split at found
    · rename_i early
      rcases interspersed.stands place event found with ⟨wrapper, link, there⟩
      have before := interspersed.increasing place index (by omega) (by omega)
      refine ⟨wrapper, ?_, by rw [Array.getElem?_pop, if_pos (by omega), there]⟩
      refine (link.transfer fun place stands apart => ?_).pop last found spared
      have elsewhere := apart index (by omega)
      have within := (Array.getElem?_eq_some_iff.mp stands).1
      rw [Array.getElem?_pop, if_pos (by omega), stands]
    · cases found
  idle place within apart := by
    rw [Array.size_pop] at within
    rw [Array.getElem?_pop, if_pos within]
    refine interspersed.idle place (by omega) fun before inside => ?_
    by_cases here : before = index
    · subst here
      omega
    · exact apart before (by rw [Array.size_pop]; omega)

/-- A blank opening at the end of the first record becomes one of those between. -/
theorem pop_left (interspersed : Interspersed image events others) (last : index + 1 = events.size)
    (found : events[index]? = some blank) (spared : ¬Wraps events index) :
    Interspersed image events.pop others where
  increasing first second before within :=
    interspersed.increasing first second before (by rw [Array.size_pop] at within; omega)
  inside place within := interspersed.inside place (by rw [Array.size_pop] at within; omega)
  stands place event there := by
    rw [Array.getElem?_pop] at there
    split at there
    · rcases interspersed.stands place event there with ⟨wrapper, link, stands⟩
      exact ⟨wrapper, link.pop last there spared, stands⟩
    · cases there
  idle place within apart := by
    by_cases here : image index = place
    · rw [← here]
      exact interspersed.blank_stands found
    · refine interspersed.idle place within fun before inside => ?_
      by_cases latest : before = index
      · rwa [latest]
      · exact apart before (by rw [Array.size_pop]; omega)

/-- A blank opening between is taken away from the end, if no event is to be wrapped in it. -/
theorem pop_right (interspersed : Interspersed image events others)
    (last : place + 1 = others.size) (apart : ∀ before < events.size, image before ≠ place)
    (spared : ¬Wraps others place) : Interspersed image events others.pop where
  increasing := interspersed.increasing
  inside before inside := by
    have within := interspersed.inside before inside
    have elsewhere := apart before inside
    rw [Array.size_pop]
    omega
  stands index event found := by
    rcases interspersed.stands index event found with ⟨wrapper, link, there⟩
    have within := (Array.getElem?_eq_some_iff.mp there).1
    have elsewhere := apart index (Array.getElem?_eq_some_iff.mp found).1
    refine ⟨wrapper, ?_, by rw [Array.getElem?_pop, if_pos (by omega), there]⟩
    cases link with
    | bare own => exact .bare own
    | moved own inside => exact .moved own inside
    | @idle distance own complete further stands between =>
        have inside := (Array.getElem?_eq_some_iff.mp stands).1
        have spared : image index + distance ≠ place := fun here =>
          spared ⟨image index, _, distance, there, wrapper_withWrapper complete.ne_closing _, here⟩
        refine .idle own complete further ?_ between
        rw [Array.getElem?_pop, if_pos (by omega), stands]
  idle before within between := by
    rw [Array.size_pop] at within
    rw [Array.getElem?_pop, if_pos within]
    exact interspersed.idle before (by omega) between

/-- A blank opening is put at the end. -/
theorem push_right (interspersed : Interspersed image events others) :
    Interspersed image events (others.push blank) where
  increasing := interspersed.increasing
  inside place inside := by
    have within := interspersed.inside place inside
    rw [Array.size_push]
    omega
  stands place event found := by
    rcases interspersed.stands place event found with ⟨wrapper, link, there⟩
    exact ⟨wrapper, link.transfer fun place stands _ => found_push stands, found_push there⟩
  idle place within apart := by
    by_cases early : place < others.size
    · exact found_push (interspersed.idle place early apart)
    · obtain rfl : place = others.size := by
        rw [Array.size_push] at within
        omega
      exact Array.getElem?_push_size

/-- A complete node is wrapped in a blank opening behind both records. -/
theorem wrap (interspersed : Interspersed image events others) (found : events[index]? = some event)
    (own : event.wrapper? = none) (complete : event.IsComplete) :
    Interspersed image events ((others.push blank).setIfInBounds (image index)
      (event.withWrapper (some (others.size - image index)))) := by
  have inside := (Array.getElem?_eq_some_iff.mp found).1
  have within := interspersed.inside index inside
  have last : image index + (others.size - image index) = others.size := by omega
  have link : Link image events.size (others.push blank) index event
      (some (others.size - image index)) := by
    refine .idle own complete (by omega) ?_ fun place inside => ?_
    · rw [last]
      exact Array.getElem?_push_size
    · have := interspersed.inside place inside
      omega
  have wrapped := interspersed.push_right.set inside link
  rwa [setIfInBounds_of_found found] at wrapped

/-! ## What calls change -/

/-- An open node is completed in both records. -/
theorem complete (interspersed : Interspersed image events others) (inside : index < events.size)
    {symbol field state : Nat} :
    Interspersed (extend image events.size others.size)
      ((events.setIfInBounds index (opening (some symbol) none field state)).push closing)
      ((others.setIfInBounds (image index) (opening (some symbol) none field state)).push
        closing) := by
  have bare : Link image events.size others index (opening (some symbol) none field state) none :=
    .bare rfl
  have completed := (interspersed.set inside bare).append
    (plain_singleton (rfl : closing.wrapper? = none))
  rw [Array.size_setIfInBounds, Array.size_setIfInBounds, ← Array.push_eq_append,
    ← Array.push_eq_append] at completed
  exact completed

/-- An opening at the end of the second record is at the end of the first one too. -/
theorem last_of_last (interspersed : Interspersed image events others)
    (inside : index < events.size) (last : image index + 1 = others.size) : index + 1 = events.size := by
  by_contra further
  have behind := interspersed.increasing index (index + 1) (by omega) (by omega)
  have within := interspersed.inside (index + 1) (by omega)
  omega

/-- An open node is given up in both records. -/
theorem abandon (interspersed : Interspersed image events others)
    (found : events[index]? = some blank)
    (spared : index + 1 = events.size → ¬Wraps events index) :
    Interspersed image (if index + 1 = events.size then events.pop else events)
      (if image index + 1 = others.size then others.pop else others) := by
  have inside := (Array.getElem?_eq_some_iff.mp found).1
  by_cases last : index + 1 = events.size
  · rw [if_pos last]
    split
    · rename_i both
      exact interspersed.pop last both (spared last)
    · exact interspersed.pop_left last found (spared last)
  · rw [if_neg last, if_neg fun both => last (interspersed.last_of_last inside both)]
    exact interspersed

/-- A complete node is wrapped in both records in one that opens behind them. -/
theorem precede (interspersed : Interspersed image events others)
    (found : events[index]? = some event) (complete : event.IsComplete) :
    Interspersed (extend image events.size others.size)
      ((events.push blank).setIfInBounds index (event.withWrapper (some (events.size - index))))
      ((others.push blank).setIfInBounds (image index)
        (event.withWrapper (some (others.size - image index)))) := by
  have inside := (Array.getElem?_eq_some_iff.mp found).1
  have behind : index + (events.size - index) = events.size := by omega
  have opened := interspersed.append (plain_singleton (rfl : blank.wrapper? = none))
  rw [← Array.push_eq_append, ← Array.push_eq_append] at opened
  have link := @Link.moved (extend image events.size others.size) (events.push blank).size
    (others.push blank) index (event.withWrapper (some (events.size - index))) _
    (wrapper_withWrapper complete.ne_closing _) (by rw [Array.size_push, behind]; omega)
  rw [behind, extend_size, extend_of_lt inside] at link
  have wrapped := opened.set (by rw [Array.size_push]; omega) link
  rw [withWrapper_withWrapper, extend_of_lt inside] at wrapped
  exact wrapped

/-! ## Folding -/

/-- What following wrappers comes to in both records. -/
structure Follows (image : Nat → Nat) (events others : Array Event)
    (followed other : Array Event × List Opening) : Prop where
  interspersed : Interspersed image followed.1 other.1
  linked : Linked followed.1
  size_eq : followed.1.size = events.size
  other_size : other.1.size = others.size
  opens : ∀ folding, other.2.foldl Folding.openNode folding =
    followed.2.foldl Folding.openNode folding

/-- The wrappers of an event open the same nodes in both records. -/
theorem follow (interspersed : Interspersed image events others) (linked : Linked events)
    (inside : index < events.size) {wrapper : Option Nat}
    (link : Link image events.size others index event wrapper)
    (leads : LeadsOn events index event.wrapper?) {inner openings : List Opening}
    (same : ∀ folding, openings.foldl Folding.openNode folding =
      inner.foldl Folding.openNode folding) :
    ∃ followed other, followWrappers events index inner event.wrapper? = .ok followed ∧
      followWrappers others (image index) openings wrapper = .ok other ∧
      Follows image events others followed other := by
  obtain ⟨bound, within⟩ : ∃ bound, events.size - index ≤ bound := ⟨_, Nat.le_refl _⟩
  induction bound generalizing events others index event inner openings wrapper with
  | zero => omega
  | succ bound ih =>
      cases link with
      | bare own =>
          rw [own, followWrappers_none, followWrappers_none]
          exact ⟨_, _, rfl, rfl, interspersed, linked, rfl, rfl, same⟩
      | @idle distance own complete further stands apart =>
          have target := (Array.getElem?_eq_some_iff.mp stands).1
          rw [own, followWrappers_none, followWrappers, stands]
          dsimp only [blank]
          rw [if_pos ⟨by omega, target⟩, followWrappers_none]
          refine ⟨_, _, rfl, rfl, ?_, linked, rfl, Array.size_setIfInBounds, same⟩
          have unchanged := setIfInBounds_of_found stands
          rw [blank] at unchanged
          dsimp only
          rw [unchanged]
          exact interspersed
      | @moved distance own target =>
          rw [own] at leads ⊢
          rcases leads distance rfl with ⟨further, _, found, symbol, next, field, state, rfl⟩
          have before := interspersed.increasing index (index + distance) (by omega) target
          have there := interspersed.inside (index + distance) target
          rcases interspersed.stands _ _ found with ⟨wrapper, onward, stands⟩
          have reached : image index + (image (index + distance) - image index) =
              image (index + distance) := by omega
          rw [followWrappers, followWrappers, reached, found, stands]
          dsimp only [withWrapper]
          rw [if_pos ⟨by omega, target⟩, if_pos ⟨before, there⟩]
          have blanked := interspersed.set target (Link.bare rfl : Link image events.size others
            (index + distance) blank none)
          have link : Link image (events.setIfInBounds (index + distance) blank).size
              (others.setIfInBounds (image (index + distance)) blank) (index + distance)
              (opening symbol next field state) wrapper := by
            rw [Array.size_setIfInBounds]
            refine onward.transfer fun place stands apart => ?_
            rw [Array.getElem?_setIfInBounds_ne (apart _ target), stands]
          have both (folding : Folding) :
              (⟨symbol, field, state⟩ :: openings).foldl Folding.openNode folding =
                (⟨symbol, field, state⟩ :: inner).foldl Folding.openNode folding := by
            rw [List.foldl_cons, List.foldl_cons, same]
          rcases ih blanked (linked.set found (fun _ => blank_opens) .none)
            (by rw [Array.size_setIfInBounds]; exact target) link
            ((linked _ _ found).set found fun _ => blank_opens) both
            (by rw [Array.size_setIfInBounds]; omega) with ⟨followed, other, first, second, follows⟩
          refine ⟨followed, other, first, second, follows.interspersed, follows.linked, ?_, ?_,
            follows.opens⟩
          · rw [follows.size_eq, Array.size_setIfInBounds]
          · rw [follows.other_size, Array.size_setIfInBounds]

/-- As much of the first record lies before the index as of the second one before the place. -/
def Aligned (image : Nat → Nat) (events : Array Event) (index place : Nat) : Prop :=
  ∀ before < events.size, before < index ↔ image before < place

/-- The event at the place is the one at the index. -/
theorem index_eq (interspersed : Interspersed image events others)
    (aligned : Aligned image events index (image place)) (inside : place < events.size) :
    place = index := by
  have notBefore : ¬place < index := fun early =>
    Nat.lt_irrefl _ ((aligned place inside).mp early)
  by_contra elsewhere
  have early := interspersed.increasing index place (by omega) inside
  exact Nat.lt_irrefl _ ((aligned index (by omega)).mpr early)

/-- The fold goes on behind an event of both records. -/
theorem aligned_succ (interspersed : Interspersed image events others)
    (aligned : Aligned image events index (image index)) (inside : index < events.size) :
    Aligned image events (index + 1) (image index + 1) := by
  intro before within
  have here := aligned before within
  by_cases same : before = index
  · subst same
    omega
  · have elsewhere : image before ≠ image index := fun equal =>
      same (interspersed.injective within inside equal)
    omega

/-- The fold goes on behind an opening between. -/
theorem Aligned.skip (aligned : Aligned image events index place)
    (apart : ∀ before < events.size, image before ≠ place) :
    Aligned image events index (place + 1) := by
  intro before inside
  rw [aligned before inside]
  have elsewhere := apart before inside
  omega

/-- Behind an event of both records, the folds go on alike in what is left of the records. -/
structure Passes (vocabulary : Vocabulary) (image : Nat → Nat) (events others : Array Event)
    (index : Nat) (folding : Folding) (after otherAfter : Array Event) (next : Folding) : Prop where
  interspersed : Interspersed image after otherAfter
  linked : Linked after
  size_eq : after.size = events.size
  other_size : otherAfter.size = others.size
  first : ∀ count, Event.foldFrom vocabulary events index folding (count + 1) =
    Event.foldFrom vocabulary after (index + 1) next count
  second : ∀ count, Event.foldFrom vocabulary others (image index) folding (count + 1) =
    Event.foldFrom vocabulary otherAfter (image index + 1) next count

/-- An opening with a symbol or a wrapper opens the same nodes in both records. -/
theorem passes_opening (interspersed : Interspersed image events others) (linked : Linked events)
    (vocabulary : Vocabulary) (folding : Folding) {symbol own wrapper : Option Nat}
    {field state : Nat} (found : events[index]? = some (opening symbol own field state))
    (there : others[image index]? = some (opening symbol wrapper field state))
    (link : Link image events.size others index (opening symbol own field state) wrapper)
    (opens : symbol ≠ none ∨ own ≠ none) :
    ∃ after otherAfter next,
      Passes vocabulary image events others index folding after otherAfter next := by
  have inside := (Array.getElem?_eq_some_iff.mp found).1
  have otherOpens : symbol ≠ none ∨ wrapper ≠ none := by
    cases link with
    | bare none => exact Or.inl (opens.resolve_right fun wrapped => wrapped none)
    | moved | idle => exact Or.inr (Option.some_ne_none _)
  rcases interspersed.follow linked inside link (linked index _ found)
    (fun _ => rfl : ∀ folding, [⟨symbol, field, state⟩].foldl Folding.openNode folding =
      [⟨symbol, field, state⟩].foldl Folding.openNode folding) with
    ⟨⟨after, openings⟩, ⟨otherAfter, otherOpenings⟩, first, second, follows⟩
  have own_follows : followWrappers events index [⟨symbol, field, state⟩] own =
    .ok (after, openings) := first
  refine ⟨after, otherAfter, openings.foldl Folding.openNode folding, follows.interspersed,
    follows.linked, follows.size_eq, follows.other_size, fun count => ?_, fun count => ?_⟩
  · rw [foldFrom_opened opens found, own_follows]
    rfl
  · rw [foldFrom_opened otherOpens there, second, ← follows.opens]
    rfl

/-- One event of both records is folded alike. -/
theorem passes (interspersed : Interspersed image events others) (linked : Linked events)
    (vocabulary : Vocabulary) (folding : Folding) (found : events[index]? = some event) :
    ∃ after otherAfter next,
      Passes vocabulary image events others index folding after otherAfter next := by
  have inside := (Array.getElem?_eq_some_iff.mp found).1
  rcases interspersed.stands index _ found with ⟨wrapper, link, there⟩
  cases event with
  | closing =>
      exact ⟨events, others, folding.closeNode vocabulary, interspersed, linked, rfl, rfl,
        fun _ => foldFrom_closing found, fun _ => foldFrom_closing there⟩
  | added tree own field =>
      rcases interspersed.follow linked inside link (linked index _ found) (fun _ => rfl) with
        ⟨⟨after, openings⟩, ⟨otherAfter, otherOpenings⟩, first, second, follows⟩
      refine ⟨after, otherAfter, (openings.foldl Folding.openNode folding).add ⟨field, tree⟩,
        follows.interspersed, follows.linked, follows.size_eq, follows.other_size,
        fun _ => foldFrom_added found first, fun _ => ?_⟩
      rw [foldFrom_added there second, follows.opens]
  | opening symbol own field state =>
      by_cases opens : symbol ≠ none ∨ own ≠ none
      · exact interspersed.passes_opening linked vocabulary folding found there link opens
      · obtain ⟨rfl, rfl⟩ : symbol = none ∧ own = none := by simpa using opens
        cases link with
        | moved wrapped => cases wrapped
        | idle _ complete => cases complete
        | bare =>
            refine ⟨events, others, folding, interspersed, linked, rfl, rfl, fun _ => ?_,
              fun _ => ?_⟩
            · rw [Event.foldFrom, found]
            · rw [Event.foldFrom, there]
              rfl

/-- The fold of both records is the same. -/
theorem foldFrom (interspersed : Interspersed image events others) (linked : Linked events)
    (vocabulary : Vocabulary) (aligned : Aligned image events index place) (folding : Folding) :
    ∃ result, foldFrom vocabulary events index folding (events.size - index) = .ok result ∧
      foldFrom vocabulary others place folding (others.size - place) = .ok result := by
  obtain ⟨bound, within⟩ : ∃ bound, others.size - place ≤ bound := ⟨_, Nat.le_refl _⟩
  induction bound generalizing events others index place folding with
  | zero =>
      have ends : events.size - index = 0 := by
        by_contra more
        have inside := interspersed.inside index (by omega)
        exact Nat.lt_irrefl _ ((aligned index (by omega)).mpr (by omega))
      rw [ends, Nat.le_zero.mp within]
      exact ⟨folding, rfl, rfl⟩
  | succ bound ih =>
      by_cases ends : others.size ≤ place
      · exact ih interspersed linked aligned folding (by omega)
      have count : others.size - place = others.size - (place + 1) + 1 := by omega
      by_cases own : ∃ before < events.size, image before = place
      · -- the fold has come to an event of both records
        rcases own with ⟨before, inside, rfl⟩
        obtain rfl := interspersed.index_eq aligned inside
        have left : events.size - before = events.size - (before + 1) + 1 := by omega
        have next := interspersed.aligned_succ aligned inside
        rcases interspersed.passes linked vocabulary folding (Array.getElem?_eq_getElem inside) with
          ⟨after, otherAfter, further, passes⟩
        have onward : Aligned image after (before + 1) (image before + 1) :=
          fun place within => next place (passes.size_eq ▸ within)
        have rest := ih passes.interspersed passes.linked onward further
          (by rw [passes.other_size]; omega)
        rw [passes.size_eq, passes.other_size] at rest
        rw [left, count, passes.first, passes.second]
        exact rest
      · have apart : ∀ before < events.size, image before ≠ place := fun before inside same =>
          own ⟨before, inside, same⟩
        rw [count, foldFrom_blank (interspersed.idle place (by omega) apart)]
        exact ih interspersed linked (aligned.skip apart) folding (by omega)

/-- Both records fold to the same trees, and without fault. -/
theorem exists_fold (interspersed : Interspersed image events others) (linked : Linked events)
    (vocabulary : Vocabulary) :
    ∃ items, fold? vocabulary events = .ok items ∧ fold? vocabulary others = .ok items := by
  have aligned : Aligned image events 0 0 := fun before _ => by omega
  rcases interspersed.foldFrom linked vocabulary aligned ⟨[], []⟩ with ⟨result, first, second⟩
  refine ⟨result.finished.reverse, ?_, ?_⟩
  · rw [fold?, ← Nat.sub_zero events.size, first]
  · rw [fold?, ← Nat.sub_zero others.size, second]

end Interspersed

end Event

end Reparse
