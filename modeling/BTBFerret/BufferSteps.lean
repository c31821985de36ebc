import BTBFerret.LookupEffects

/-!
# The buffer and the chains under every operation

A lookup that returns has tried exactly one trigger, and it has taken at most
one entry out of the buffer. `BookStep` lists what an operation can do to the
buffer and its account.
-/

namespace BTBFerret

open ReplacementPolicy AssociativeCache FallibleRuns

namespace State

variable {p : Params} {A : Issue → Prop}

/-- What an operation whose prefetches meet `A` does to the books. -/
inductive BookStepOf (A : Issue → Prop) (s s' : State p) : Prop
  | fetch (u : State p) (same : u.books = s.books) (fetching : Fetching A u s')
  | l1Hit (l : Loc p.l1btb.shape) (e : BTBEntry)
      (flag : e.prefetched = (s.l1btb.get l).prefetched)
      (books : s'.books = s.books.countL1Hit e)
  | take (key : KeyType) (l : Loc p.pBuffer.shape) (found : s.pBuffer.findEntry key = some l)
      (now : Tick) (u : State p) (books : u.books = s.books.take now key l)
      (fetching : Fetching A u s')
  | clear (books : s'.books = s.books.clear)

/-- What an operation does to the books. -/
abbrev BookStep : State p → State p → Prop := BookStepOf (fun _ => True)

lemma BookStepOf.of_books {s s' : State p} (h : s'.books = s.books) : BookStepOf A s s' :=
  .fetch s' h Relation.ReflTransGen.refl

lemma BookStepOf.entries {s s' : State p} (h : BookStepOf A s s') (l : Loc p.pBuffer.shape)
    (hv : (s'.pBuffer.get l).valid = true) :
    s'.pBuffer.get l = s.pBuffer.get l ∨ ∃ i, A i ∧ s'.IssuedEntry i (s'.pBuffer.get l) := by
  cases h with
  | fetch u same fetching =>
    have hpb : u.pBuffer = s.pBuffer := congrArg Books.pBuffer same
    rcases fetching.entries l with hold | hissued
    · exact .inl (hold.trans (by rw [hpb]))
    · exact .inr hissued
  | l1Hit _ e _ books =>
    left
    have hpb : s'.pBuffer = (s.books.countL1Hit e).pBuffer := congrArg Books.pBuffer books
    rw [hpb, Books.countL1Hit]
    split
    · rfl
    · rfl
  | take key m _ now u books fetching =>
    have hget := s.books.get_take now key m l
    rw [← books] at hget
    change u.pBuffer.get l = _ at hget
    rcases fetching.entries l with hold | hissued
    · left
      rw [hold] at hv ⊢
      split at hget
      · rw [hget] at hv
        cases hv
      · exact hget
    · exact .inr hissued
  | clear books =>
    have hpb : s'.pBuffer = s.pBuffer.clear := congrArg Books.pBuffer books
    rw [hpb, Cache.get_clear] at hv
    cases hv

variable (tid : ThreadID) (instPC : Addr) (type : BranchType) (taken : Bool)
  (blockStartAddr : Addr) (basePrediction : Bool)

/-- Block training changes bits but no prefetched flag. -/
lemma lookupWithLatency_books (s : State p)
    (hA : s.l1btb.findEntry ⟨instPC, tid⟩ = none → s.MarkovHit instPC → ∀ i, A i) :
    Meets (s.lookupWithLatency tid instPC type taken blockStartAddr basePrediction)
      (fun r => BookStepOf A s r.1 ∧ TriggeredBy tid instPC type s r.1) (fun _ => True) := by
  refine (lookup_spec (F := fun _ => True) (T := AnyThread) s tid instPC type taken blockStartAddr
    basePrediction (fun _ _ _ _ => trivial) hA
    (fun t _ => softTriggers_of_thread trivial t instPC type)).mono ?_ (fun _ _ => trivial)
  rintro r ⟨hlooked, htrigger⟩
  refine ⟨?_, htrigger⟩
  cases hlooked with
  | hit _ search l _ _ books => exact .l1Hit l _ (search.flag l) books
  | miss t search same missed v src f served brings =>
    obtain ⟨u, _, hbooks, hpre⟩ := brings
    rw [booksAfter] at hbooks
    split at hbooks
    · rename_i l hl
      refine .take ⟨instPC, tid⟩ l ?_ t.curTick u (by rw [hbooks, same]) hpre.fetching
      split at hl
      · rw [← search.pBuffer]
        exact hl
      · cases hl
    · exact .fetch u (hbooks.trans same) hpre.fetching

/-! ## All operations -/

/-- Whatever the operation may issue meets `A`. -/
def Supplies (A : Issue → Prop) (s : State p) : Op → Prop
  | .lookup tid instPC _ _ _ _ =>
    s.l1btb.findEntry ⟨instPC, tid⟩ = none → s.MarkovHit instPC → ∀ i, A i
  | .processDeferredPrefetchQueue => ∀ e ∈ s.readyEntries, s.Permits A e
  | _ => True

lemma step_books_of {s s' : State p} {o : Op} (hA : Supplies A s o) (h : s.step o = .ok s') :
    BookStepOf A s s' := by
  cases o with
  | update => exact .of_books ((aside_update s _ _ _ _ _).of_ok h).books
  | lookup =>
    obtain ⟨r, hr, he⟩ := map_eq_ok_iff.mp h
    exact he ▸ ((lookupWithLatency_books _ _ _ _ _ _ s hA).of_ok hr).1
  | trainMarkovOnCommit => exact .of_books ((aside_trainMarkovOnCommit s _ _).of_ok h).books
  | trainPrefetchBitsOnCommit =>
    cases h
    exact .of_books (aside_trainPrefetchBitsOnCommit s _ _ _).books
  | processDeferredPrefetchQueue =>
    exact .fetch s rfl ((fetching_processDeferredPrefetchQueue s hA).of_ok h)
  | memInvalidate =>
    cases h
    exact .clear rfl
  | lookupL1 tid instPC =>
    cases h
    exact .of_books (counted_lookupL1 s tid instPC).books
  | updateDirection tid instPC taken =>
    cases h
    exact .of_books (aside_updateDirection s tid instPC taken).books
  | setBBMap | advance =>
    cases h
    exact .of_books rfl

lemma step_books {s s' : State p} {o : Op} (h : s.step o = .ok s') : BookStep s s' := by
  refine step_books_of ?_ h
  cases o with
  | lookup => exact fun _ _ _ => trivial
  | processDeferredPrefetchQueue => exact fun _ _ _ _ _ _ => trivial
  | _ => exact trivial

end State

end BTBFerret
