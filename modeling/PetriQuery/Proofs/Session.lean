import PetriQuery.Proofs.Grammar.Property
import PetriQuery.Session

/-!
# Sessions are transactional

A walk over the children of a set pushes their items into the session one by one, so a session that
is in the middle of a document may hold a part of its items. What the calls on a session leave
behind knows nothing of that: a call that fails leaves the session as it was, and one that succeeds
appends the items of the whole set.

Main facts: reading a tree appends what `propertySet` gives (`addTree_eq`), so a call does to a
session what its document alone decides (`call_eq`), and a history leaves the items of its
successful calls, in their order (`run_eq`, `history_is_transactional`).
-/

set_option autoImplicit false

namespace PetriQuery

open Document (Element)
open Grammar (HasItem Item Options propertySet propertySet_eq_ok_iff selectedProperty)

namespace Traced

variable {ε α β : Type}

/-- How a computation ends, whatever its value is. -/
def ending (x : Traced ε α) : Traced ε Unit := x >>= fun _ => pure ()

/-- A sequence ends as its second part does. -/
theorem ending_bind (x : Traced ε α) (f : α → Traced ε β) :
    (x >>= f).ending = x >>= fun value => (f value).ending :=
  bind_assoc x f fun _ => pure ()

/-- A computation that ends well has a value. -/
theorem result_ending_eq_ok_iff {x : Traced ε α} :
    x.ending.result = .ok () ↔ ∃ value, x.result = .ok value := by
  rw [ending]
  simp only [result_bind_eq_ok_iff, result_pure, and_true]

/-- A computation that ends badly has no value. -/
theorem result_ending_eq_error_iff {x : Traced ε α} {failure : ε} :
    x.ending.result = .error failure ↔ x.result = .error failure := by
  rw [ending]
  rw [result_bind]
  cases x.result <;> simp [Except.bind]

end Traced

open Traced (ending ending_bind result_bind_eq_ok_iff result_ending_eq_error_iff
  result_ending_eq_ok_iff result_mapM_eq_ok_iff)

namespace Session

/-! ## Steps of a walk -/

section Steps

variable {α : Type} {session : Session} {first : Traced Failure α}
  {next : α → Session × Traced Failure Unit}

/-- The log of a step and what follows it are one, and so are the ends. -/
theorem snd_proceed :
    (session.proceed first next).2 = first >>= fun value => (next value).2 := by
  rw [proceed]
  cases h : first.result with
  | error failure => exact (Traced.bind_of_error _ h).symm
  | ok value =>
    apply Traced.ext
    · exact (Traced.log_bind_of_ok (fun value => (next value).2) h).symm
    · exact (Traced.result_bind_of_ok (fun value => (next value).2) h).symm

/-- After a step that gives a value, the session is what the next step makes of it. -/
theorem fst_proceed_of_ok {value : α} (h : first.result = .ok value) :
    (session.proceed first next).1 = (next value).1 := by
  rw [proceed, h]

/-- After a step that gives no value, the session is what it was. -/
theorem fst_proceed_of_error {failure : Failure} (h : first.result = .error failure) :
    (session.proceed first next).1 = session := by
  rw [proceed, h]

end Steps

/-! ## Walks -/

/-- A walk ends as reading the items in a list does. -/
theorem snd_walk (session : Session) (entries : List (Element × Nat)) :
    (session.walk entries).2
      = (entries.mapM fun entry => selectedProperty session.options entry.1 entry.2).ending := by
  induction entries generalizing session with
  | nil => rfl
  | cons entry rest ih =>
    -- Pushing an item changes no option, so the rest is read in the same way.
    rw [walk, snd_proceed, List.mapM_cons, ending_bind]
    congr 1
    funext item
    rw [ih, ending_bind]
    rfl

/-- A walk that reads all items pushes them. -/
theorem fst_walk_of_ok (session : Session) {entries : List (Element × Nat)} {items : List Item}
    (read : List.Forall₂
      (fun entry item => (selectedProperty session.options entry.1 entry.2).result = .ok item)
      entries items) :
    (session.walk entries).1 = ⟨session.options, session.items ++ items⟩ := by
  induction entries generalizing session items with
  | nil =>
    cases read
    rw [walk, List.append_nil]
  | cons entry rest ih =>
    cases read with
    | cons head tail =>
      rw [walk, fst_proceed_of_ok head, ih (session.push _) tail]
      simp only [push, List.append_assoc, List.singleton_append]

/-- A walk keeps the items that were there, whether it reads all items or not. -/
theorem exists_pushed_walk (session : Session) (entries : List (Element × Nat)) :
    ∃ pushed, (session.walk entries).1 = ⟨session.options, session.items ++ pushed⟩ := by
  induction entries generalizing session with
  | nil => exact ⟨[], by rw [walk, List.append_nil]⟩
  | cons entry rest ih =>
    cases h : (selectedProperty session.options entry.1 entry.2).result with
    -- The walk ends here, with what earlier children pushed already in the session.
    | error failure =>
      refine ⟨[], ?_⟩
      rw [walk, fst_proceed_of_error h, List.append_nil]
    | ok item =>
      obtain ⟨pushed, same⟩ := ih (session.push item)
      refine ⟨item :: pushed, ?_⟩
      rw [walk, fst_proceed_of_ok h, same]
      simp only [push, List.append_assoc, List.singleton_append]

/-- The walk over a set ends as reading its items does. -/
theorem snd_walkSet (session : Session) (root : Element) :
    (session.walkSet root).2 = (propertySet session.options root).ending := by
  rw [walkSet, snd_proceed, propertySet, ending_bind]
  congr 1
  funext entered
  change (session.walk root.children.zipIdx).2 >>= (fun _ => Grammar.leaveSet) = _
  rw [snd_walk, ending_bind, ending, bind_assoc]
  rfl

/-- The walk over a set that is read pushes its items. -/
theorem fst_walkSet_of_ok (session : Session) {root : Element} {items : List Item}
    (read : (propertySet session.options root).result = .ok items) :
    (session.walkSet root).1 = ⟨session.options, session.items ++ items⟩ := by
  simp only [propertySet, result_bind_eq_ok_iff] at read
  obtain ⟨entered, enter, found, each, left, leave, same⟩ := read
  obtain rfl : found = items := Except.ok.inj same
  rw [walkSet, fst_proceed_of_ok enter]
  exact fst_walk_of_ok session (result_mapM_eq_ok_iff.1 each)

/-- The walk over a set keeps the items that were there. -/
theorem exists_pushed_walkSet (session : Session) (root : Element) :
    ∃ pushed, (session.walkSet root).1 = ⟨session.options, session.items ++ pushed⟩ := by
  cases h : (Grammar.enterSet root).result with
  | error failure =>
    refine ⟨[], ?_⟩
    rw [walkSet, fst_proceed_of_error h, List.append_nil]
  | ok entered =>
    obtain ⟨pushed, same⟩ := exists_pushed_walk session root.children.zipIdx
    refine ⟨pushed, ?_⟩
    rw [walkSet, fst_proceed_of_ok h]
    exact same

/-! ## Calls -/

/-- Dropping what was pushed leaves what was there. -/
theorem truncate_pushed (session : Session) (pushed : List Item) :
    truncate ⟨session.options, session.items ++ pushed⟩ session.items.length = session := by
  rw [truncate, List.take_left]

/-- Reading a tree appends its items as a whole. -/
theorem addTree_eq (session : Session) (root : Element) :
    session.addTree root
      = (session.append (propertySet session.options root).result,
          (propertySet session.options root).ending) := by
  have ends := snd_walkSet session root
  cases h : (propertySet session.options root).result with
  | ok items =>
    have ok : (session.walkSet root).2.result = .ok () := by
      rw [ends]
      exact result_ending_eq_ok_iff.2 ⟨items, h⟩
    simp only [addTree, ok]
    exact Prod.ext (fst_walkSet_of_ok session h) ends
  | error failure =>
    have failed : (session.walkSet root).2.result = .error failure := by
      rw [ends]
      exact result_ending_eq_error_iff.2 h
    -- Some items may have been pushed; they are behind the old ones, where the cut is made.
    obtain ⟨pushed, same⟩ := exists_pushed_walkSet session root
    simp only [addTree, failed, same, truncate_pushed]
    exact Prod.ext rfl ends

end Session

/-- The items of the set that a call hands over. -/
def Call.items (options : Options) (call : Call) : Traced Failure (List Item) := do
  propertySet options (← call.root)

namespace Session

/-- A call does what its own items decide, whatever the session holds. -/
theorem call_eq (session : Session) (call : Call) :
    session.call call
      = (session.append (call.items session.options).result,
          (call.items session.options).ending) := by
  cases call with
  | tree root => exact addTree_eq session root
  | document reading source =>
    rw [Session.call, addDocument, Call.items, Call.root]
    apply Prod.ext
    · cases h : (readRoot reading source).result with
      | error failure =>
        rw [fst_proceed_of_error h, Traced.bind_of_error _ h]
        rfl
      | ok root =>
        rw [fst_proceed_of_ok h, addTree_eq, Traced.result_bind_of_ok _ h]
    · rw [snd_proceed, ending_bind]
      congr 1
      funext root
      rw [addTree_eq]

/-! ## Histories -/

/-- A session that starts without items holds after a call what the call gives. -/
theorem items_call_start (options : Options) (call : Call) :
    ((start options).call call).1.items
      = match (call.items options).result with
        | .ok items => items
        | .error _ => [] := by
  rw [call_eq]
  change ((start options).append (call.items options).result).items = _
  cases (call.items options).result <;> rfl

/-- A call appends what it leaves in a session without items. -/
theorem fst_call (session : Session) (call : Call) :
    (session.call call).1
      = ⟨session.options,
          session.items ++ ((start session.options).call call).1.items⟩ := by
  rw [items_call_start, call_eq]
  cases h : (call.items session.options).result with
  | ok items => rw [append]
  | error failure => rw [append, List.append_nil]

/-- A call is answered as in a session without items. -/
theorem snd_call (session : Session) (call : Call) :
    (session.call call).2 = ((start session.options).call call).2 := by
  rw [call_eq, call_eq]
  rfl

/-- A history appends what each of its calls leaves in a session without items, and answers each as
there. -/
theorem run_eq (session : Session) (calls : List Call) :
    session.run calls
      = (⟨session.options,
          session.items ++ calls.flatMap fun call =>
            ((start session.options).call call).1.items⟩,
        calls.map fun call => ((start session.options).call call).2) := by
  induction calls generalizing session with
  | nil => rw [run, List.flatMap_nil, List.append_nil, List.map_nil]
  | cons call calls ih =>
    rw [run, ih, fst_call, snd_call, List.flatMap_cons, List.map_cons, List.append_assoc]

/-- A call that fails changes nothing. -/
theorem fst_call_of_error {session : Session} {call : Call} {failure : Failure}
    (failed : (session.call call).2.result = .error failure) : (session.call call).1 = session := by
  rw [call_eq] at failed ⊢
  rw [result_ending_eq_error_iff.1 failed]
  rfl

/-- A call that fails leaves nothing in a session without items, so only the successful calls of a
history count. -/
theorem flatMap_items_eq (options : Options) (calls : List Call) :
    calls.flatMap (fun call => ((start options).call call).1.items)
      = (calls.filter fun call => ((start options).call call).2.result.isOk).flatMap
          fun call => ((start options).call call).1.items := by
  induction calls with
  | nil => rfl
  | cons call calls ih =>
    rw [List.flatMap_cons, List.filter_cons, ih]
    cases h : ((start options).call call).2.result with
    | ok _ => rfl
    | error failure =>
      rw [fst_call_of_error h]
      rfl

/-- A call that succeeds has a tree, and appends an item for each child of its root. -/
theorem fst_call_of_ok {session : Session} {call : Call}
    (succeeded : (session.call call).2.result = .ok ()) :
    ∃ root items, call.root.result = .ok root
      ∧ (session.call call).1 = ⟨session.options, session.items ++ items⟩
      ∧ items.length = root.children.length
      ∧ ∀ index child item, root.children[index]? = some child → items[index]? = some item →
        HasItem session.options index child item := by
  rw [call_eq] at succeeded ⊢
  obtain ⟨items, given⟩ := result_ending_eq_ok_iff.1 succeeded
  obtain ⟨root, handed, read⟩ := result_bind_eq_ok_iff.1 given
  obtain ⟨-, each⟩ := propertySet_eq_ok_iff.1 read
  refine ⟨root, items, handed, ?_, each⟩
  rw [given]
  rfl

/-- Every item that a history leaves is the item of a child of a root that was handed over. -/
theorem exists_hasItem_of_mem_run {options : Options} {calls : List Call} {item : Item}
    (held : item ∈ ((start options).run calls).1.items) :
    ∃ call ∈ calls, ∃ root, call.root.result = .ok root
      ∧ ∃ index child, root.children[index]? = some child ∧ HasItem options index child item := by
  rw [run_eq] at held
  obtain ⟨call, called, member⟩ := List.mem_flatMap.1 held
  change item ∈ ((start options).call call).1.items at member
  refine ⟨call, called, ?_⟩
  cases answer : ((start options).call call).2.result with
  | error failure =>
    rw [fst_call_of_error answer] at member
    cases member
  | ok value =>
    obtain ⟨root, items, handed, after, count, each⟩ := fst_call_of_ok answer
    rw [after] at member
    change item ∈ items at member
    obtain ⟨index, bound, rfl⟩ := List.mem_iff_getElem.1 member
    have inside : index < root.children.length := count ▸ bound
    exact ⟨root, handed, index, root.children[index], List.getElem?_eq_getElem inside,
      each index _ _ (List.getElem?_eq_getElem inside) (List.getElem?_eq_getElem bound)⟩

/-- **Sessions are transactional.** After any history, a session holds the items that its successful
calls give in a session of their own, in the order of the calls, and every call has been answered as
in a session of its own. Whatever a session holds, a call that fails leaves it as it was, and a call
that succeeds appends one item for each child of its root, with the indices of the selection counted
from zero in that root. -/
theorem history_is_transactional (options : Options) (calls : List Call) :
    ((start options).run calls).1.items
        = (calls.filter fun call => ((start options).call call).2.result.isOk).flatMap
            (fun call => ((start options).call call).1.items)
      ∧ ((start options).run calls).2 = calls.map (fun call => ((start options).call call).2)
      ∧ ∀ (session : Session) (call : Call),
        (session.call call).2 = ((start session.options).call call).2
        ∧ (∀ failure, (session.call call).2.result = .error failure →
            (session.call call).1 = session)
        ∧ ((session.call call).2.result = .ok () →
            ∃ root items, call.root.result = .ok root
              ∧ (session.call call).1 = ⟨session.options, session.items ++ items⟩
              ∧ items.length = root.children.length
              ∧ ∀ index child item, root.children[index]? = some child →
                items[index]? = some item → HasItem session.options index child item) := by
  refine ⟨?_, ?_, ?_⟩
  · rw [run_eq, ← flatMap_items_eq]
    rfl
  · rw [run_eq]
    rfl
  · intro session call
    exact ⟨snd_call session call, fun _ failed => fst_call_of_error failed,
      fun succeeded => fst_call_of_ok succeeded⟩

/-- The property of the given id that the given element is the formula of. -/
def sampleProperty (id : String) (body : Element) : Element :=
  .mk .property "" .empty [.mk .id id .empty [], .mk .formula "" .empty [body]]

/-- A set of one property. -/
def readable : Element :=
  .mk .propertySet "" .empty [sampleProperty "q0" (.mk .alwaysTrue "" .empty [])]

/-- A set of two properties. The second one is a comparison without operands. -/
def unreadable : Element :=
  .mk .propertySet "" .empty
    [sampleProperty "q0" (.mk .alwaysTrue "" .empty []),
      sampleProperty "q1" (.mk .integerLt "" .empty [])]

theorem history_is_transactional_of_unreadable_tree :
    ((start .default).run [.tree readable, .tree unreadable, .tree readable]).1.items
        = [⟨"q0", some (.truth true), .ok⟩, ⟨"q0", some (.truth true), .ok⟩]
      ∧ (((start .default).call (.tree readable)).1.call (.tree unreadable)).2.result
        = .error ⟨[.property 1, .formula "q1"], .grammar (.wrongArity "integer-lt" (.exactly 2) 0)⟩
      ∧ (((start .default).call (.tree readable)).1.call (.tree unreadable)).1
        = ((start .default).call (.tree readable)).1
      ∧ ((start .default).call (.tree readable)).1.items.length = readable.children.length := by
  have failed : (((start .default).call (.tree readable)).1.call (.tree unreadable)).2.result
      = .error ⟨[.property 1, .formula "q1"],
          .grammar (.wrongArity "integer-lt" (.exactly 2) 0)⟩ := by
    rfl
  refine ⟨?_, failed, ?_, ?_⟩
  · exact (history_is_transactional .default
      [.tree readable, .tree unreadable, .tree readable]).1.trans (by rfl)
  · exact ((history_is_transactional .default []).2.2 _ _).2.1 _ failed
  · obtain ⟨root, items, handed, after, count, -⟩ :=
      ((history_is_transactional .default []).2.2 (start .default) (.tree readable)).2.2 rfl
    obtain rfl : readable = root := Except.ok.inj handed
    rw [after]
    exact count

end Session

end PetriQuery
