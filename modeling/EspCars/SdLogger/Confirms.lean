import EspCars.SdLogger.ServingSafe

/-!
# Whom a confirm reaches

A confirm is queued by its number, and the writer renames whatever file bears that number when it
comes to it. A step does what it should (`Earned`) as long as the file is the one that the queued
confirm was accepted for (`Aimed`); nothing but a mount or the file that the writer opens can bring
another one under a queued number (`Undisturbed`).
-/

namespace EspCars.SdLogger

open EspCars.Lib Logger CollectionPolicy

variable {capacity : Nat}

namespace CollectionPolicy

variable {p : CollectionPolicy capacity}

/-! ## Calls that confirm no entry -/

def Call.Plain : Call → Prop
  | .confirm _ => False
  | .add _ _ state => state ≠ .confirmed
  | .addName _ _ => False
  | _ => True

variable {e : ChunkEntry} {seq : UInt32}

theorem confirmed_of_mem (h : Inv p) (he : e ∈ p.chunks)
    (hs : e.state = .confirmed) : (p.find e.seq).map (·.state) = some .confirmed := by
  rw [find, Keyed.find_of_mem h.nodup he, Option.map_some, hs]

theorem confirmed_of_modify (h : Inv p) {f : ChunkEntry → ChunkEntry}
    (hkey : ∀ e, (f e).seq = e.seq) (hstate : ∀ e, (f e).state = .confirmed → e.state = .confirmed)
    (he : e ∈ (p.modify seq f).chunks) (hs : e.state = .confirmed) :
    (p.find e.seq).map (·.state) = some .confirmed := by
  rcases Keyed.mem_update he with he | ⟨e₀, he₀, rfl⟩
  · exact confirmed_of_mem h he hs
  · rw [hkey]
    exact confirmed_of_mem h (Keyed.mem_of_find he₀).1 (hstate e₀ hs)

theorem mem_of_add {bytes : UInt64} {state : ChunkState}
    (he : e ∈ (p.add seq bytes state).2.chunks) :
    e ∈ p.chunks ∨ (e.seq = seq ∧ e.state = state) := by
  unfold add at he
  split_ifs at he
  · exact Or.inl he
  · exact Or.inl he
  · exact Or.inl he
  · rcases List.mem_append.mp he with he | he
    · exact Or.inl he
    · rw [List.mem_singleton.mp he]
      exact Or.inr ⟨rfl, rfl⟩

/-- Whatever is CONFIRMED after such a call was so before. -/
theorem confirmed_of_step (h : Inv p) {c : Call} (hc : c.Plain)
    (he : e ∈ (p.step c).chunks) (hs : e.state = .confirmed) :
    (p.find e.seq).map (·.state) = some .confirmed := by
  cases c with
  | add seq bytes state =>
    obtain he | ⟨-, hstate⟩ := mem_of_add he
    · exact confirmed_of_mem h he hs
    · exact absurd (hstate.symm.trans hs) hc
  | addName name bytes => cases hc
  | seal_ seq bytes =>
    change e ∈ (p.seal_ seq bytes).2.chunks at he
    unfold seal_ at he
    split at he
    · exact confirmed_of_mem h he hs
    · split_ifs at he
      · exact confirmed_of_mem h he hs
      · exact confirmed_of_modify h (by intro e; rfl) (by intro e hsealed; cases hsealed) he hs
  | restateSealedBytes seq bytes =>
    change e ∈ (p.restateSealedBytes seq bytes).2.chunks at he
    unfold restateSealedBytes at he
    split at he
    · exact confirmed_of_mem h he hs
    · split_ifs at he
      · exact confirmed_of_mem h he hs
      · exact confirmed_of_modify h (by intro e; rfl) (by intro e; exact id) he hs
  | confirm seq => cases hc
  | markServing seq =>
    change e ∈ (p.markServing seq).2.chunks at he
    unfold markServing at he
    split at he
    · exact confirmed_of_mem h he hs
    · split_ifs at he
      · exact confirmed_of_mem h he hs
      · exact confirmed_of_modify h (by intro e; rfl) (by intro e; exact id) he hs
  | clearServing seq =>
    exact confirmed_of_modify h (by intro e; rfl) (by intro e; exact id) he hs
  | discard seq =>
    change e ∈ (p.discard seq).2.chunks at he
    unfold discard at he
    split at he
    · exact confirmed_of_mem h he hs
    · split_ifs at he
      · exact confirmed_of_mem h he hs
      · exact confirmed_of_mem h (Keyed.erase_sublist.mem he) hs
      · exact confirmed_of_mem h (Keyed.erase_sublist.mem he) hs
  | clear => cases he
  | _ => exact confirmed_of_mem h he hs

theorem confirmed_of_exec (h : Inv p) {calls : List Call} (hc : ∀ c ∈ calls, c.Plain)
    (he : e ∈ (exec step p calls).chunks) (hs : e.state = .confirmed) :
    (p.find e.seq).map (·.state) = some .confirmed := by
  induction calls generalizing p with
  | nil => exact confirmed_of_mem h he hs
  | cons c calls ih =>
    have hrest := ih (h.step c) (fun d hd => hc d (List.mem_cons_of_mem _ hd)) he
    obtain ⟨e', hfind, hstate⟩ := Option.map_eq_some_iff.mp hrest
    obtain ⟨hmem, hseq⟩ := Keyed.mem_of_find hfind
    rw [← hseq]
    exact confirmed_of_step h (hc c (List.mem_cons_self ..)) hmem hstate

/-- What a confirm marks is the SEALED entry of its number. -/
theorem confirmed_of_confirm (h : Inv p)
    (he : e ∈ (p.confirm seq).2.chunks) (hs : e.state = .confirmed) :
    (p.find e.seq).map (·.state) = some .confirmed ∨
      (e.seq = seq ∧ (p.find seq).map (·.state) = some .sealed) := by
  unfold confirm at he
  split at he
  · exact Or.inl (confirmed_of_mem h he hs)
  · next entry hfound =>
    split_ifs at he with hconfirmed hsealed
    · exact Or.inl (confirmed_of_mem h he hs)
    · exact Or.inl (confirmed_of_mem h he hs)
    · rcases Keyed.mem_update he with he | ⟨e₀, he₀, rfl⟩
      · exact Or.inl (confirmed_of_mem h he hs)
      · rw [hfound]
        exact Or.inr ⟨(Keyed.mem_of_find he₀).2, congrArg some (not_not.mp hsealed)⟩

end CollectionPolicy

namespace Logger

variable {s s' : Logger capacity} {a : Action}

/-! ## What a step does to the index -/

/-- How an action changes the policy. -/
inductive PolicyMove (s : Logger capacity) (a : Action) : CollectionPolicy capacity → Prop
  | plain (calls : List CollectionPolicy.Call) (h : ∀ c ∈ calls, c.Plain) :
    PolicyMove s a (exec CollectionPolicy.step s.policy calls)
  | heard (seq : UInt32) (ha : a = .confirm seq)
      (haccepted : (s.step a).accepted = (s.hear seq).accepted) :
    PolicyMove s a (s.policy.confirm seq).2
  | applied (ok : Bool) (bytes : UInt64) (ha : a = .writer ok bytes) (seq : UInt32)
      (reserved : Bool) (moved : Option Nat) (hplace : s.place = .confirming seq reserved true moved)
      (calls : List CollectionPolicy.Call) (h : ∀ c ∈ calls, c.Plain) :
    PolicyMove s a ((exec CollectionPolicy.step s.policy calls).confirm seq).2
  | found (f : CardFile) (todo : Directory) (next : UInt32) (bytes : UInt64)
      (hplace : s.place = .tracking f .confirmed todo next) :
    PolicyMove s a (s.policy.add f.seq bytes .confirmed).2

namespace PolicyMove

theorem same : PolicyMove s a s.policy := .plain [] (fun _ hc => by cases hc)

theorem one (c : CollectionPolicy.Call) (h : c.Plain) : PolicyMove s a (s.policy.step c) :=
  .plain [c] (fun _ hd => List.mem_singleton.mp hd ▸ h)

theorem two (c d : CollectionPolicy.Call) (hc : c.Plain) (hd : d.Plain) :
    PolicyMove s a ((s.policy.step c).step d) := by
  refine .plain [c, d] ?_
  intro e he
  rcases List.mem_cons.mp he with rfl | he
  · exact hc
  · exact List.mem_singleton.mp he ▸ hd

theorem inv {q : CollectionPolicy capacity} (h : PolicyMove s a q) (hi : s.policy.Inv) : q.Inv := by
  cases h with
  | plain calls => exact hi.run calls
  | heard seq => exact hi.step (.confirm seq)
  | applied ok bytes ha seq reserved moved hplace calls => exact (hi.run calls).step (.confirm seq)
  | found f todo next bytes hplace => exact hi.step (.add f.seq bytes .confirmed)

end PolicyMove

theorem policy_reserve (s : Logger capacity) (a : Action) (seq : UInt32) :
    PolicyMove s a (s.reserve seq).2.policy := by
  unfold reserve
  split
  · exact .one (.markServing seq) trivial
  · exact .same

theorem policy_reserveVictim (s : Logger capacity) (a : Action) (victim : Option ChunkEntry)
    (back : Return) : PolicyMove s a (s.reserveVictim victim back).policy := by
  unfold reserveVictim
  split
  · exact .same
  · split
    · exact s.policy_reserve a _
    · exact .same

theorem policy_drainConfirms (s : Logger capacity) (a : Action) :
    PolicyMove s a s.drainConfirms.policy := by
  unfold drainConfirms
  split
  · exact .same
  · split
    · exact .same
    · split
      · exact .same
      · exact s.policy_reserve a _

theorem policy_proceed (s : Logger capacity) (ok : Bool) (bytes : UInt64) :
    PolicyMove s (.writer ok bytes) (s.proceed ok bytes).policy := by
  unfold proceed
  cases hplace : s.place with
  | discarding seq state back =>
    show PolicyMove s _ (s.discardUnlink seq state back ok).policy
    unfold discardUnlink
    split
    · exact .same
    · split
      · exact .same
      · exact .same
  | dropping seq back => exact .two (.clearServing seq) (.discard seq) trivial trivial
  | releasing seq back => exact .one (.clearServing seq) trivial
  | receiving intent renameable reserved =>
    show PolicyMove s _ (s.receiveIntent intent renameable reserved).policy
    unfold receiveIntent
    split
    · exact .same
    · exact .same
  | moving intent reserved =>
    show PolicyMove s _ (s.renameChunk intent reserved ok).policy
    unfold renameChunk
    split
    · exact .same
    · split
      · exact .same
      · exact .same
  | confirming seq reserved gone moved =>
    show PolicyMove s _ (if gone then _ else _)
    cases gone with
    | true =>
      cases reserved with
      | true =>
        refine .applied ok bytes rfl seq true moved hplace [.clearServing seq] ?_
        intro c hc
        exact List.mem_singleton.mp hc ▸ trivial
      | false => exact .applied ok bytes rfl seq false moved hplace [] (fun _ hc => by cases hc)
    | false =>
      cases reserved with
      | true => exact .one (.clearServing seq) trivial
      | false => exact .same
  | sealing => exact .one (.seal_ s.seq bytes) trivial
  | losing => exact .one .clear trivial
  | opened =>
    show PolicyMove s _ (if ok then _ else _ : Logger capacity).policy
    split
    · exact .one .clear trivial
    · exact .one .clear trivial
  | scanning todo next =>
    cases todo with
    | nil => exact .same
    | cons f todo => exact .same
  | tracking f state todo next =>
    by_cases hstate : state = .confirmed
    · subst hstate
      exact .found f todo next bytes hplace
    · exact .one (.add f.seq bytes state) hstate
  | pressing back => exact s.policy_reserveVictim _ _ back
  | creating =>
    show PolicyMove s _ (if ok then _ else _ : Logger capacity).policy
    split
    · exact .same
    · exact .same
  | heading =>
    show PolicyMove s _ (if ok then _ else _ : Logger capacity).policy
    split
    · exact .same
    · exact .same
  | adding again => exact .one (.add s.seq bytes .open_) (by intro h; cases h)
  | _ => exact .same

/-- A confirm is refused, or it is heard, and queued if the entry was not CONFIRMED. -/
theorem collectionConfirm_cases (s : Logger capacity) (seq : UInt32) :
    (s.collectionConfirm seq).2 = s ∨ (s.collectionConfirm seq).2 = s.hear seq ∨
      ((∃ e ∈ s.policy.find seq, e.state ≠ .open_ ∧ e.state ≠ .confirmed) ∧
        (s.collectionConfirm seq).2 =
          { s.hear seq with
            confirmQ := s.confirmQ ++ [⟨seq, s.sealedFile seq⟩]
            policy := (s.policy.confirm seq).2 }) := by
  unfold collectionConfirm
  split
  · exact Or.inl rfl
  · split
    · exact Or.inl rfl
    · next e he =>
      split
      · exact Or.inl rfl
      · next hopen =>
        split
        · exact Or.inr (Or.inl rfl)
        · next hconfirmed =>
          split
          · exact Or.inl rfl
          · exact Or.inr (Or.inr ⟨⟨e, he, hopen, hconfirmed⟩, rfl⟩)

theorem policy_step (s : Logger capacity) (a : Action) : PolicyMove s a (s.step a).policy := by
  cases a with
  | beginServe seq =>
    show PolicyMove s _ (s.collectionBeginServe seq).2.policy
    obtain heq | ⟨-, -, -, heq⟩ := s.collectionBeginServe_cases seq
    · rw [heq]
      exact .same
    · rw [heq]
      exact .one (.markServing seq) trivial
  | beginDebug seq named =>
    show PolicyMove s _ (s.beginDebug seq named).2.policy
    obtain heq | ⟨-, -, -, heq⟩ := s.beginDebug_cases seq named
    · rw [heq]
      exact .same
    · rw [heq]
      exact .one (.markServing seq) trivial
  | clearServe n =>
    show PolicyMove s _ (s.clearServe n).policy
    unfold clearServe
    split
    · exact .same
    · next t _ => exact .one (.clearServing t.seq) trivial
  | endDebug n =>
    show PolicyMove s _ (s.endDebug n).policy
    unfold endDebug
    split
    · exact .same
    · next t _ => exact .one (.clearServing t.seq) trivial
  | confirm seq =>
    have hmove (q : Logger capacity) (hq : (s.collectionConfirm seq).2 = q)
        (hpolicy : q.policy = (s.policy.confirm seq).2)
        (haccepted : q.accepted = (s.hear seq).accepted) :
        PolicyMove s (.confirm seq) (s.collectionConfirm seq).2.policy := by
      rw [hq, hpolicy]
      refine .heard seq rfl ?_
      show (s.collectionConfirm seq).2.accepted = _
      rw [hq, haccepted]
    show PolicyMove s _ (s.collectionConfirm seq).2.policy
    obtain heq | heq | ⟨-, heq⟩ := s.collectionConfirm_cases seq
    · rw [heq]
      exact .same
    · rw [heq]
      exact .same
    · exact hmove _ heq rfl rfl
  | endServe =>
    show PolicyMove s _ s.endServe.policy
    unfold endServe
    split
    · exact .same
    · exact .same
  | beginRaw =>
    show PolicyMove s _ s.beginRawRead.policy
    unfold beginRawRead
    split
    · exact .same
    · exact .same
  | endRaw =>
    show PolicyMove s _ s.endRawRead.policy
    unfold endRawRead
    split
    · exact .same
    · exact .same
  | retain fill =>
    show PolicyMove s _ (if _ then _ else _ : Logger capacity).policy
    split
    · exact s.policy_reserveVictim _ _ _
    · exact .same
  | drain =>
    show PolicyMove s _ (if _ then _ else _ : Logger capacity).policy
    split
    · exact s.policy_drainConfirms _
    · exact .same
  | closeFile flushed =>
    show PolicyMove s _ (if _ then (if _ then _ else _) else _ : Logger capacity).policy
    split
    · split
      · exact .same
      · exact .same
    · exact .same
  | writer ok bytes => exact s.policy_proceed ok bytes
  | unmount =>
    show PolicyMove s _ (if _ then _ else _ : Logger capacity).policy
    split
    · exact .one .clear trivial
    · exact .same
  | restate seq bytes =>
    show PolicyMove s _ (if _ then _ else _ : Logger capacity).policy
    split
    · exact .one (.restateSealedBytes seq bytes) trivial
    · exact .same
  | openNextFile =>
    show PolicyMove s _ (if _ then _ else (if _ then _ else _) : Logger capacity).policy
    split
    · exact .same
    · split
      · exact .same
      · exact .same
  | _ =>
    show PolicyMove s _ (if _ then _ else _ : Logger capacity).policy
    split
    · exact .same
    · exact .same

/-! ## What a confirm should do -/

/-- The scan has found a file named `.UPL`. -/
def Found (s : Logger capacity) (seq : UInt32) : Prop :=
  ∃ f todo next, s.place = .tracking f .confirmed todo next ∧ f.seq = seq ∧ f.ext = .upl

/-- A file that the step renames to `.UPL`, and one whose entry it marks CONFIRMED, has heard the
answer CONFIRMED since it was sealed, unless the scan has found the chunk named `.UPL`. -/
def Earned (s : Logger capacity) (a : Action) : Prop :=
  (∀ f ∈ s.dir, f.ext = .log → { f with ext := .upl } ∈ (s.step a).dir →
    { f with ext := .upl } ∉ s.dir → f.id ∈ s.accepted) ∧
  ∀ e ∈ (s.step a).policy.chunks, e.state = .confirmed →
    (s.policy.find e.seq).map (·.state) ≠ some .confirmed →
    s.Found e.seq ∨
      ∀ f ∈ (s.step a).dir, f.seq = e.seq → f.ext = .log → f.id ∈ (s.step a).accepted

/-- A confirm that would be queued is not of the file that the writer has open. -/
def Closed (s : Logger capacity) (seq : UInt32) : Prop :=
  ∀ e ∈ s.policy.find seq, e.state ≠ .open_ → e.state ≠ .confirmed →
    ∀ f ∈ s.dir, f.seq = seq → f.ext = .log → s.writes ≠ some f.id

/-- The file that a queued confirm comes to rename is the one that it was accepted for. No
directory has a name twice. -/
def Aimed (s : Logger capacity) : Action → Prop
  | .writer ok _ =>
    match s.place with
    | .moving intent _ =>
      ok = true → ∀ f ∈ s.dir.lookup intent.seq .log, intent.aim = some f.id
    | _ => True
  | .confirm seq => s.Closed seq
  | .mount dir => (dir.map CardFile.name).Nodup
  | _ => True

/-! ## What is known of the queued confirms -/

def Heard (s : Logger capacity) (intent : Intent) : Prop :=
  ∀ id, intent.aim = some id → id ∈ s.accepted

/-- The confirm that the writer is at. -/
def intents : Place → List Intent
  | .receiving intent _ _ => [intent]
  | .moving intent _ => [intent]
  | _ => []

/-- Those that are queued, and the one that the writer is at. -/
def carried (s : Logger capacity) : List Intent := s.confirmQ ++ intents s.place

/-- What holds at the place that the writer is at. -/
def Stands (s : Logger capacity) : Place → Prop
  | .confirming seq _ true _ => s.dir.lookup seq .log = none
  | .tracking f state _ _ => chunkStateOf f.ext = some state
  | .unmounted => s.card = none
  | _ => True

/-- Every confirm that is carried was heard, and the index and the card are sound. -/
structure Confirms (s : Logger capacity) : Prop where
  index : s.policy.Inv
  names : (s.dir.map CardFile.name).Nodup
  queue : ∀ intent ∈ s.carried, s.Heard intent
  stands : s.Stands s.place

theorem Heard.mono {intent : Intent} (h : s.Heard intent) (hsub : s.accepted ⊆ s'.accepted) :
    s'.Heard intent := fun id hid => hsub (h id hid)

/-- The httpd task leaves the writer and the card as they are. -/
theorem Stands.httpd {place : Place} (h : s.Stands place) (hcard : s'.card = s.card) :
    s'.Stands place := by
  cases place with
  | confirming seq reserved gone moved =>
    cases gone with
    | true =>
      show s'.dir.lookup seq .log = none
      unfold dir
      rw [hcard]
      exact h
    | false => trivial
  | tracking f state todo next => exact h
  | unmounted => exact hcard.trans h
  | _ => trivial

theorem Confirms.hear (h : Confirms s) (seq : UInt32) : Confirms (s.hear seq) := by
  have hsub : s.accepted ⊆ (s.hear seq).accepted := List.subset_append_left _ _
  exact ⟨h.index, h.names, fun intent hintent => (h.queue intent hintent).mono hsub,
    h.stands.httpd rfl⟩

variable {f : CardFile} {seq : UInt32}

theorem mem_numbered (hf : f ∈ s.dir) : f.id ∈ s.dir.numbered f.seq := by
  apply List.mem_map_of_mem
  exact List.mem_filter.mpr ⟨hf, by simp⟩

/-- The file that is queued hears the answer. -/
theorem sealedFile_heard {id : Nat} (h : s.sealedFile seq = some id) :
    id ∈ (s.hear seq).accepted := by
  obtain ⟨hid, hopen⟩ := Option.filter_eq_some_iff.mp h
  obtain ⟨f, hfile, rfl⟩ := Option.map_eq_some_iff.mp hid
  obtain ⟨hmem, hname⟩ := Keyed.mem_of_find hfile
  have hseq : f.seq = seq := congrArg Prod.fst hname
  apply List.mem_append_right
  refine List.mem_filter.mpr ⟨?_, hopen⟩
  rw [← hseq]
  exact mem_numbered hmem

theorem Confirms.collectionConfirm (h : Confirms s) (seq : UInt32) :
    Confirms (s.collectionConfirm seq).2 := by
  obtain heq | heq | ⟨-, heq⟩ := s.collectionConfirm_cases seq
  · rw [heq]
    exact h
  · rw [heq]
    exact h.hear seq
  · rw [heq]
    have hheard := h.hear seq
    refine ⟨h.index.step (.confirm seq), h.names, ?_, hheard.stands.httpd rfl⟩
    intro intent hintent
    rcases List.mem_append.mp hintent with hintent | hintent
    · rcases List.mem_append.mp hintent with hintent | hintent
      · exact hheard.queue intent (List.mem_append_left _ hintent)
      · rw [List.mem_singleton.mp hintent]
        intro id hid
        exact sealedFile_heard hid
    · exact hheard.queue intent (List.mem_append_right _ hintent)

/-- What the writer leaves of the confirms, which it takes from the queue and never adds. -/
structure Minds (s s' : Logger capacity) : Prop where
  accepted : s'.accepted = s.accepted
  queue : ∀ intent ∈ s'.carried, intent ∈ s.carried
  stands : s'.Stands s'.place

theorem Minds.refl (h : Confirms s) : Minds s s := ⟨rfl, fun _ => id, h.stands⟩

/-- At the place that it goes to there is no confirm. -/
theorem Minds.plain (haccepted : s'.accepted = s.accepted) (hqueue : s'.confirmQ = s.confirmQ)
    (hintents : intents s'.place = []) (hstands : s'.Stands s'.place) : Minds s s' := by
  refine ⟨haccepted, ?_, hstands⟩
  intro intent hintent
  unfold carried at hintent
  rw [hqueue, hintents, List.append_nil] at hintent
  exact List.mem_append_left _ hintent

/-- The httpd task is not at any confirm. -/
theorem Minds.httpd (h : Confirms s) (hplace : s'.place = s.place) (hcard : s'.card = s.card)
    (hqueue : s'.confirmQ = s.confirmQ) (haccepted : s'.accepted = s.accepted) : Minds s s' := by
  refine ⟨haccepted, ?_, ?_⟩
  · intro intent hintent
    unfold carried at hintent
    rw [hqueue, hplace] at hintent
    exact hintent
  · rw [hplace]
    exact h.stands.httpd hcard

theorem minds_resume (s : Logger capacity) (q : CollectionPolicy capacity) (back : Return)
    (dropped : Bool) : Minds s ({ s with policy := q }.resume back dropped) := by
  cases back with
  | retention => exact .plain rfl rfl rfl trivial
  | pressureBefore => exact .plain rfl rfl rfl trivial
  | pressureAfter =>
    cases dropped with
    | false => exact .plain rfl rfl rfl trivial
    | true => exact .plain rfl rfl rfl trivial

theorem minds_reserveVictim (s : Logger capacity) (victim : Option ChunkEntry) (back : Return) :
    Minds s (s.reserveVictim victim back) := by
  unfold reserveVictim
  split
  · exact s.minds_resume s.policy back false
  · unfold reserve
    split
    · exact .plain rfl rfl rfl trivial
    · exact s.minds_resume s.policy back false

theorem Confirms.minds_drainConfirms (h : Confirms s) : Minds s s.drainConfirms := by
  unfold drainConfirms
  split
  · exact .refl h
  · next intent rest hqueue =>
    have htaken {q : Logger capacity} (haccepted : q.accepted = s.accepted)
        (hkept : q.confirmQ = s.confirmQ) (hplace : intents q.place = [intent])
        (hstands : q.Stands q.place) : Minds s q := by
      refine ⟨haccepted, ?_, hstands⟩
      intro i hi
      unfold carried at hi
      rw [hkept, hplace] at hi
      apply List.mem_append_left
      rcases List.mem_append.mp hi with hi | hi
      · exact hi
      · rw [List.mem_singleton.mp hi, hqueue]
        exact List.mem_cons_self ..
    split
    · exact .refl h
    · split
      · exact htaken rfl rfl rfl trivial
      · unfold reserve
        split
        · exact htaken rfl rfl rfl trivial
        · exact htaken rfl rfl rfl trivial

theorem minds_scanEntry (s : Logger capacity) (f : CardFile) (todo : Directory) (next : UInt32) :
    Minds s (s.scanEntry f todo next) := by
  unfold scanEntry
  dsimp only
  generalize (if f.seq + 1 > next then f.seq + 1 else next) = next
  cases hstate : chunkStateOf f.ext with
  | none => exact .plain rfl rfl rfl trivial
  | some state =>
    dsimp only
    by_cases hfull : s.policy.chunks.length + 1 ≥ capacity
    · rw [if_pos hfull]
      exact .plain rfl rfl rfl trivial
    · rw [if_neg hfull]
      exact .plain rfl rfl rfl hstate

theorem Confirms.lookup_moved (h : Confirms s) {seq : UInt32} {f : CardFile} :
    (s.dir.remove seq .log ++ [{ f with ext := .upl }] : Directory).lookup seq .log = none := by
  have hremoved : (s.dir.remove seq .log).lookup seq .log = none := by
    unfold Directory.remove Directory.lookup
    rw [Keyed.find_erase h.names, if_pos rfl]
  rw [Directory.lookup_append, hremoved, Option.none_or, if_neg]
  intro hname
  cases hname

theorem Confirms.minds_renameChunk (h : Confirms s) (intent : Intent) (reserved ok : Bool) :
    Minds s (s.renameChunk intent reserved ok) := by
  unfold renameChunk
  split
  · next hnone => exact .plain rfl rfl rfl hnone
  · next f hfile =>
    split
    · refine .plain rfl rfl rfl ?_
      obtain ⟨files, hcard⟩ : ∃ files, s.card = some files := by
        cases hc : s.card with
        | none =>
          unfold dir at hfile
          rw [hc] at hfile
          cases hfile
        | some files => exact ⟨files, rfl⟩
      have hmoved := @Confirms.lookup_moved _ _ h intent.seq f
      rw [dir_eq hcard] at hmoved
      show Directory.lookup ((s.card.map _).getD []) intent.seq .log = none
      rw [hcard]
      exact hmoved
    · exact .plain rfl rfl rfl trivial

/-- The head of the queue is the confirm that was peeked at. -/
theorem minds_receiveIntent {intent : Intent} {renameable reserved : Bool}
    (hplace : s.place = .receiving intent renameable reserved) :
    Minds s (s.receiveIntent intent renameable reserved) := by
  unfold receiveIntent
  split
  · cases reserved with
    | true => exact .plain rfl rfl rfl trivial
    | false => exact .plain rfl rfl rfl trivial
  · next rest hqueue =>
    have hcarried : ∀ i ∈ rest ++ [intent], i ∈ s.carried := by
      intro i hi
      unfold carried
      rw [hplace, hqueue]
      rcases List.mem_append.mp hi with hi | hi
      · exact List.mem_append_left _ (List.mem_cons_of_mem _ hi)
      · exact List.mem_append_right _ hi
    cases renameable with
    | true => exact ⟨rfl, hcarried, trivial⟩
    | false =>
      refine ⟨rfl, fun i hi => hcarried i ?_, trivial⟩
      rcases List.mem_append.mp hi with hi | hi
      · exact List.mem_append_left _ hi
      · cases hi

theorem Confirms.minds_proceed (h : Confirms s) (ok : Bool) (bytes : UInt64) :
    Minds s (s.proceed ok bytes) := by
  have hsame : Minds s s := .refl h
  unfold proceed
  cases hplace : s.place with
  | discarding seq state back =>
    show Minds s (s.discardUnlink seq state back ok)
    unfold discardUnlink
    split
    · by_cases hsealed : state = .sealed
      · rw [if_pos hsealed]
        exact .plain rfl rfl rfl trivial
      · rw [if_neg hsealed]
        exact .plain rfl rfl rfl trivial
    · split
      · exact .plain rfl rfl rfl trivial
      · exact .plain rfl rfl rfl trivial
  | reclaiming seq back => exact .plain rfl rfl rfl trivial
  | dropping seq back => exact s.minds_resume _ back _
  | releasing seq back => exact s.minds_resume _ back _
  | receiving intent renameable reserved => exact minds_receiveIntent hplace
  | moving intent reserved => exact h.minds_renameChunk intent reserved ok
  | confirming seq reserved gone moved => exact .plain rfl rfl rfl trivial
  | sealing => exact .plain rfl rfl rfl trivial
  | losing => exact .plain rfl rfl rfl trivial
  | draining => exact .plain rfl rfl rfl trivial
  | drained => exact .plain rfl rfl rfl rfl
  | mounted => exact .plain rfl rfl rfl trivial
  | opened =>
    cases ok with
    | true => exact .plain rfl rfl rfl trivial
    | false => exact .plain rfl rfl rfl trivial
  | scanning todo next =>
    cases todo with
    | nil => exact .plain rfl rfl rfl trivial
    | cons f todo => exact s.minds_scanEntry f todo next
  | tracking f state todo next => exact .plain rfl rfl rfl trivial
  | pressing back => exact s.minds_reserveVictim _ back
  | creating =>
    cases ok with
    | true => exact .plain rfl rfl rfl trivial
    | false => exact .plain rfl rfl rfl trivial
  | refused => exact .plain rfl rfl rfl trivial
  | heading =>
    cases ok with
    | true => exact .plain rfl rfl rfl trivial
    | false => exact .plain rfl rfl rfl trivial
  | adding again =>
    show Minds s (s.addOpen bytes again)
    unfold addOpen
    dsimp only
    split
    · exact .plain rfl rfl rfl trivial
    · exact .plain rfl rfl rfl trivial
  | _ => exact hsame

theorem dir_of_none (h : s.card = none) : s.dir = [] := by
  unfold dir
  rw [h]
  rfl

/-- The directory is what the step makes of it, where there is one. -/
theorem dir_map {f : Directory → Directory} (h : s'.card = s.card.map f) :
    s'.dir = [] ∨ s'.dir = f s.dir := by
  cases hcard : s.card with
  | none =>
    rw [hcard] at h
    exact Or.inl (dir_of_none h)
  | some files =>
    rw [hcard] at h
    rw [dir_eq hcard]
    exact Or.inr (dir_eq h)

theorem Confirms.names_step (h : Confirms s) (ha : s.Aimed a) :
    ((s.step a).dir.map CardFile.name).Nodup := by
  have hmove := s.card_step a
  generalize hcard : (s.step a).card = card at hmove
  have hnil : (([] : Directory).map CardFile.name).Nodup := List.nodup_nil
  have hfresh {seq : UInt32} {ext : Extension} {f : CardFile} (hname : f.name ∉
      (s.dir.remove seq ext).map CardFile.name) :
      ((s.dir.remove seq ext ++ [f]).map CardFile.name).Nodup := by
    rw [List.map_append, List.nodup_append]
    refine ⟨h.names.sublist (Keyed.erase_sublist.map _), List.nodup_singleton _, ?_⟩
    intro x hx y hy hxy
    rw [List.mem_singleton.mp hy] at hxy
    exact hname (hxy ▸ hx)
  cases hmove with
  | same =>
    have hdir : (s.step a).dir = s.dir := congrArg (·.getD []) hcard
    rw [hdir]
    exact h.names
  | removed seq ext hpulls =>
    obtain hdir | hdir := dir_map hcard
    · rw [hdir]
      exact hnil
    · rw [hdir]
      exact h.names.sublist (Keyed.erase_sublist.map _)
  | renamed intent reserved bytes f hplace ha hfile hfree =>
    obtain hdir | hdir := dir_map hcard
    · rw [hdir]
      exact hnil
    · rw [hdir]
      apply hfresh
      intro hmem
      have hname : ({ f with ext := .upl } : CardFile).name = (intent.seq, .upl) := by
        have hseq := congrArg Prod.fst (Keyed.mem_of_find hfile).2
        exact congrArg (·, Extension.upl) hseq
      rw [hname] at hmem
      exact Keyed.find_eq_none_iff.mp hfree ((Keyed.erase_sublist.map _).mem hmem)
  | created bytes hplace hwriter =>
    obtain hdir | hdir := dir_map hcard
    · rw [hdir]
      exact hnil
    · rw [hdir]
      apply hfresh
      apply Keyed.find_eq_none_iff.mp
      exact (Keyed.find_erase h.names _).trans (if_pos rfl)
  | unmounted hplace =>
    rw [dir_of_none hcard]
    exact hnil
  | mounted files hplace hmount =>
    rw [dir_eq hcard]
    rw [hmount] at ha
    exact ha

theorem Confirms.of_minds (h : Confirms s) (ha : s.Aimed a) (hm : Minds s (s.step a)) :
    Confirms (s.step a) := by
  refine ⟨(s.policy_step a).inv h.index, h.names_step ha, ?_, hm.stands⟩
  intro intent hintent
  refine (h.queue intent (hm.queue intent hintent)).mono ?_
  rw [hm.accepted]
  exact List.Subset.refl _

theorem Confirms.minds_step (h : Confirms s) (ha : ∀ seq, a ≠ .confirm seq) :
    Minds s (s.step a) := by
  cases a with
  | beginServe seq =>
    show Minds s (s.collectionBeginServe seq).2
    obtain heq | ⟨-, -, -, heq⟩ := s.collectionBeginServe_cases seq
    · rw [heq]
      exact .refl h
    · rw [heq]
      exact .httpd h rfl rfl rfl rfl
  | beginDebug seq named =>
    show Minds s (s.beginDebug seq named).2
    obtain heq | ⟨-, -, -, heq⟩ := s.beginDebug_cases seq named
    · rw [heq]
      exact .refl h
    · rw [heq]
      exact .httpd h rfl rfl rfl rfl
  | clearServe n =>
    show Minds s (s.clearServe n)
    unfold clearServe
    split
    · exact .refl h
    · exact .httpd h rfl rfl rfl rfl
  | endDebug n =>
    show Minds s (s.endDebug n)
    unfold endDebug
    split
    · exact .refl h
    · exact .httpd h rfl rfl rfl rfl
  | confirm seq => exact absurd rfl (ha seq)
  | endServe =>
    show Minds s s.endServe
    unfold endServe
    split
    · exact .refl h
    · exact .httpd h rfl rfl rfl rfl
  | beginRaw =>
    show Minds s s.beginRawRead
    unfold beginRawRead
    split
    · exact .refl h
    · exact .httpd h rfl rfl rfl rfl
  | endRaw =>
    show Minds s s.endRawRead
    unfold endRawRead
    split
    · exact .refl h
    · exact .httpd h rfl rfl rfl rfl
  | retain fill =>
    show Minds s (if _ then _ else _)
    split
    · exact s.minds_reserveVictim _ _
    · exact .refl h
  | drain =>
    show Minds s (if _ then _ else _)
    split
    · exact h.minds_drainConfirms
    · exact .refl h
  | closeFile flushed =>
    show Minds s (if _ then (if _ then _ else _) else _)
    split
    · split
      · exact .plain rfl rfl rfl trivial
      · exact .plain rfl rfl rfl trivial
    · exact .refl h
  | fence =>
    show Minds s (if _ then _ else _)
    split
    · exact .httpd h rfl rfl rfl rfl
    · exact .refl h
  | writer ok bytes => exact h.minds_proceed ok bytes
  | restate seq bytes =>
    show Minds s (if _ then _ else _)
    split
    · exact .httpd h rfl rfl rfl rfl
    · exact .refl h
  | openNextFile =>
    have hopen (seq : UInt32) : Minds s (s.beginOpen seq) := by
      unfold beginOpen
      split
      · exact .plain rfl rfl rfl trivial
      · exact .plain rfl rfl rfl trivial
    show Minds s (if _ then _ else (if _ then _ else _))
    split
    · exact hopen _
    · split
      · exact hopen _
      · exact .refl h
  | _ =>
    show Minds s (if _ then _ else _)
    split
    · exact .plain rfl rfl rfl trivial
    · exact .refl h

theorem Confirms.step (h : Confirms s) (ha : s.Aimed a) : Confirms (s.step a) := by
  by_cases hconfirm : ∃ seq, a = .confirm seq
  · obtain ⟨seq, rfl⟩ := hconfirm
    exact h.collectionConfirm seq
  · exact h.of_minds ha (h.minds_step fun seq heq => hconfirm ⟨seq, heq⟩)

/-! ## An aimed step earns what it does -/

theorem Confirms.renames_earned (h : Confirms s) (ha : s.Aimed a)
    (hf : f ∈ s.dir) (hnew : { f with ext := .upl } ∈ (s.step a).dir)
    (hold : { f with ext := .upl } ∉ s.dir) : f.id ∈ s.accepted := by
  have hmove := s.card_step a
  generalize hcard : (s.step a).card = card at hmove
  cases hmove with
  | same =>
    have hdir : (s.step a).dir = s.dir := congrArg (·.getD []) hcard
    rw [hdir] at hnew
    exact absurd hnew hold
  | removed seq ext hpulls =>
    obtain hdir | hdir := dir_map hcard
    · rw [hdir] at hnew
      cases hnew
    · rw [hdir] at hnew
      exact absurd (Keyed.erase_sublist.mem hnew) hold
  | renamed intent reserved bytes g hplace hwriter hfile hfree =>
    obtain hdir | hdir := dir_map hcard
    · rw [hdir] at hnew
      cases hnew
    · rw [hdir] at hnew
      rcases List.mem_append.mp hnew with hmem | hmem
      · exact absurd (Keyed.erase_sublist.mem hmem) hold
      · have heq := List.mem_singleton.mp hmem
        have hid : f.id = g.id := (CardFile.mk.inj heq).1
        have hcarried : intent ∈ s.carried := by
          unfold carried
          rw [hplace]
          exact List.mem_append_right _ (List.mem_singleton_self intent)
        rw [hwriter, Aimed, hplace] at ha
        rw [hid]
        exact h.queue intent hcarried g.id (ha rfl g hfile)
  | created bytes hplace hwriter =>
    obtain hdir | hdir := dir_map hcard
    · rw [hdir] at hnew
      cases hnew
    · rw [hdir] at hnew
      rcases List.mem_append.mp hnew with hmem | hmem
      · exact absurd (Keyed.erase_sublist.mem hmem) hold
      · have hext := congrArg CardFile.ext (List.mem_singleton.mp hmem)
        cases hext
  | unmounted hplace =>
    rw [dir_of_none hcard] at hnew
    cases hnew
  | mounted files hplace hmount =>
    have hstands := h.stands
    rw [hplace] at hstands
    rw [dir_of_none hstands] at hf
    cases hf

/-- A step that is a confirm of a SEALED entry marks its files, which hear the answer. -/
theorem marks_heard (ha : s.Aimed (.confirm seq))
    (hsealed : (s.policy.find seq).map (·.state) = some .sealed)
    (haccepted : (s.step (.confirm seq)).accepted = (s.hear seq).accepted)
    (hf : f ∈ (s.step (.confirm seq)).dir) (hseq : f.seq = seq) (hlog : f.ext = .log) :
    f.id ∈ (s.step (.confirm seq)).accepted := by
  have hcard : (s.step (.confirm seq)).card = s.card := (s.card_httpd seq .none 0).2.2.2.2
  have hdir : (s.step (.confirm seq)).dir = s.dir := congrArg (·.getD []) hcard
  rw [hdir] at hf
  rw [haccepted]
  apply List.mem_append_right
  refine List.mem_filter.mpr ⟨hseq ▸ mem_numbered hf, ?_⟩
  obtain ⟨e, he, hstate⟩ := Option.map_eq_some_iff.mp hsealed
  have hclosed := ha e he (by rw [hstate]; decide) (by rw [hstate]; decide) f hf hseq hlog
  simpa using hclosed

theorem Confirms.marks_earned (h : Confirms s) (ha : s.Aimed a) {e : ChunkEntry}
    (he : e ∈ (s.step a).policy.chunks) (hconfirmed : e.state = .confirmed)
    (hnew : (s.policy.find e.seq).map (·.state) ≠ some .confirmed) :
    s.Found e.seq ∨
      ∀ f ∈ (s.step a).dir, f.seq = e.seq → f.ext = .log → f.id ∈ (s.step a).accepted := by
  have hmove := s.policy_step a
  generalize hpolicy : (s.step a).policy = q at hmove he
  cases hmove with
  | plain calls hplain =>
    exact absurd (confirmed_of_exec h.index hplain he hconfirmed) hnew
  | heard seq hconfirm haccepted =>
    obtain hold | ⟨hseq, hsealed⟩ := confirmed_of_confirm h.index he hconfirmed
    · exact absurd hold hnew
    · right
      subst hconfirm
      intro f hf hfseq hlog
      exact marks_heard ha hsealed haccepted hf (hfseq.trans hseq) hlog
  | applied ok bytes hwriter seq reserved moved hplace calls hplain =>
    have hindex := h.index.run calls
    obtain hold | ⟨hseq, -⟩ := confirmed_of_confirm hindex he hconfirmed
    · obtain ⟨e', hfind, hstate⟩ := Option.map_eq_some_iff.mp hold
      obtain ⟨hmem, hkey⟩ := Keyed.mem_of_find hfind
      rw [← hkey] at hnew
      exact absurd (confirmed_of_exec h.index hplain hmem hstate) hnew
    · right
      intro f hf hfseq hlog
      have hgone := h.stands
      rw [hplace] at hgone
      have hcard : (s.step a).card = s.card := by
        rw [hwriter]
        show (s.proceed ok bytes).card = s.card
        unfold proceed
        rw [hplace]
        rfl
      have hdir : (s.step a).dir = s.dir := congrArg (·.getD []) hcard
      rw [hdir] at hf
      have hname : f.name = (seq, .log) := Prod.ext (hfseq.trans hseq) hlog
      exact absurd (hname ▸ List.mem_map_of_mem hf) (Keyed.find_eq_none_iff.mp hgone)
  | found f todo next bytes hplace =>
    left
    have hstands := h.stands
    rw [hplace] at hstands
    have hext : f.ext = .upl := by
      cases hf : f.ext with
      | upl => rfl
      | log =>
        rw [Stands, hf] at hstands
        cases hstands
      | csv =>
        rw [Stands, hf] at hstands
        cases hstands
    refine ⟨f, todo, next, hplace, ?_, hext⟩
    obtain he | ⟨hseq, -⟩ := mem_of_add he
    · exact absurd (confirmed_of_mem h.index he hconfirmed) hnew
    · exact hseq.symm

theorem Confirms.start (enabled : Bool) (retentionPercent : UInt8) :
    Confirms (start enabled retentionPercent : Logger capacity) := by
  refine ⟨CollectionPolicy.Inv.start.of_sublist (List.Sublist.refl _), List.nodup_nil, ?_, rfl⟩
  intro intent hintent
  cases hintent

theorem Confirms.run {enabled : Bool} {retentionPercent : UInt8} {actions : List Action}
    (ha : Admitted Aimed Logger.step (Logger.start enabled retentionPercent : Logger capacity)
      actions) :
    Confirms (run enabled retentionPercent actions : Logger capacity) :=
  ha.invariant Confirms (fun _ _ hadmitted h => h.step hadmitted)
    (Confirms.start enabled retentionPercent)

/-! ## What keeps the steps aimed -/

/-- The only file that bears the number of a confirm is the one that it was accepted for. -/
def Alone (intent : Intent) (files : Directory) : Prop :=
  ∀ f ∈ files, f.seq = intent.seq → f.ext = .log → intent.aim = some f.id

/-- A card that is mounted, and a file that is opened, bring no other file under a queued
number. -/
def Undisturbed (s : Logger capacity) : Action → Prop
  | .mount files =>
    (files.map CardFile.name).Nodup ∧ ∀ intent ∈ s.confirmQ, Alone intent files
  | .writer ok _ =>
    s.place = .creating → ok = true → ∀ intent ∈ s.confirmQ, intent.seq ≠ s.seq % seqModulus
  | .confirm seq => s.Closed seq
  | _ => True

instance (intent : Intent) (files : Directory) : Decidable (Alone intent files) :=
  inferInstanceAs (Decidable (∀ f ∈ files, _ → _ → _))

instance (s : Logger capacity) : (a : Action) → Decidable (s.Undisturbed a)
  | .mount _ => inferInstanceAs (Decidable (_ ∧ _))
  | .writer .. => inferInstanceAs (Decidable (_ → _ → _))
  | .confirm seq =>
    inferInstanceAs (Decidable (∀ e ∈ s.policy.find seq, _ → _ → ∀ f ∈ s.dir, _ → _ → _))
  | .beginServe .. | .beginDebug .. | .clearServe .. | .endServe | .endDebug .. | .beginRaw
  | .endRaw | .retain .. | .drain | .closeFile .. | .fail | .fence | .unmount | .restate ..
  | .openNextFile => inferInstanceAs (Decidable True)

/-- Every confirm that is carried is alone with its chunk, too. -/
structure Settled (s : Logger capacity) : Prop where
  confirms : Confirms s
  alone : ∀ intent ∈ s.carried, Alone intent s.dir

theorem Settled.aimed (h : Settled s) (ha : s.Undisturbed a) : s.Aimed a := by
  cases a with
  | writer ok bytes =>
    unfold Aimed
    cases hplace : s.place with
    | moving intent reserved =>
      intro _ f hf
      obtain ⟨hmem, hname⟩ := Keyed.mem_of_find hf
      refine h.alone intent ?_ f hmem (congrArg Prod.fst hname) (congrArg Prod.snd hname)
      unfold carried
      rw [hplace]
      exact List.mem_append_right _ (List.mem_singleton_self intent)
    | _ => trivial
  | confirm seq => exact ha
  | mount files => exact ha.1
  | _ => trivial

/-- Where a `.LOG` of the card comes from. -/
theorem log_of_step (hf : f ∈ (s.step a).dir) (hlog : f.ext = .log) : f ∈ s.dir ∨
      (s.place = .creating ∧ (∃ bytes, a = .writer true bytes) ∧ f.seq = s.seq % seqModulus) ∨
      (s.place = .unmounted ∧ ∃ files, a = .mount files ∧ f ∈ files) := by
  have hmove := s.card_step a
  generalize hcard : (s.step a).card = card at hmove
  cases hmove with
  | same =>
    have hdir : (s.step a).dir = s.dir := congrArg (·.getD []) hcard
    exact Or.inl (hdir ▸ hf)
  | removed seq ext hpulls =>
    obtain hdir | hdir := dir_map hcard
    · rw [hdir] at hf
      cases hf
    · rw [hdir] at hf
      exact Or.inl (Keyed.erase_sublist.mem hf)
  | renamed intent reserved bytes g hplace hwriter hfile hfree =>
    obtain hdir | hdir := dir_map hcard
    · rw [hdir] at hf
      cases hf
    · rw [hdir] at hf
      rcases List.mem_append.mp hf with hf | hf
      · exact Or.inl (Keyed.erase_sublist.mem hf)
      · rw [List.mem_singleton.mp hf] at hlog
        cases hlog
  | created bytes hplace hwriter =>
    obtain hdir | hdir := dir_map hcard
    · rw [hdir] at hf
      cases hf
    · rw [hdir] at hf
      rcases List.mem_append.mp hf with hf | hf
      · exact Or.inl (Keyed.erase_sublist.mem hf)
      · right
        left
        rw [List.mem_singleton.mp hf]
        exact ⟨hplace, ⟨bytes, hwriter⟩, rfl⟩
  | unmounted hplace =>
    rw [dir_of_none hcard] at hf
    cases hf
  | mounted files hplace hmount =>
    rw [dir_eq hcard] at hf
    exact Or.inr (Or.inr ⟨hplace, files, hmount, hf⟩)

/-- A confirm that is queued is queued for the file that bears its number. -/
theorem Confirms.alone_queued (h : Confirms s)
    (hsome : ∃ e ∈ s.policy.find seq, e.state ≠ .open_ ∧ e.state ≠ .confirmed)
    (hclosed : s.Closed seq) : Alone ⟨seq, s.sealedFile seq⟩ s.dir := by
  intro f hf hseq hlog
  obtain ⟨e, he, hopen, hconfirmed⟩ := hsome
  have hname : f.name = (seq, .log) := Prod.ext hseq hlog
  have hfile := Keyed.find_of_mem h.names hf
  rw [hname] at hfile
  change s.dir.lookup seq .log = some f at hfile
  show s.sealedFile seq = some f.id
  unfold sealedFile
  rw [hfile, Option.map_some, Option.filter_some, if_pos]
  simpa using hclosed e he hopen hconfirmed f hf hseq hlog

theorem Settled.step (h : Settled s) (ha : s.Undisturbed a) : Settled (s.step a) := by
  refine ⟨h.confirms.step (h.aimed ha), ?_⟩
  by_cases hconfirm : ∃ seq, a = .confirm seq
  · obtain ⟨seq, rfl⟩ := hconfirm
    show ∀ intent ∈ (s.collectionConfirm seq).2.carried, Alone intent (s.collectionConfirm seq).2.dir
    obtain heq | heq | ⟨hsome, heq⟩ := s.collectionConfirm_cases seq
    · rw [heq]
      exact h.alone
    · rw [heq]
      exact h.alone
    · rw [heq]
      intro intent hintent
      show Alone intent s.dir
      rcases List.mem_append.mp hintent with hintent | hintent
      · rcases List.mem_append.mp hintent with hintent | hintent
        · exact h.alone intent (List.mem_append_left _ hintent)
        · rw [List.mem_singleton.mp hintent]
          exact h.confirms.alone_queued hsome ha
      · exact h.alone intent (List.mem_append_right _ hintent)
  · have hm := h.confirms.minds_step fun seq heq => hconfirm ⟨seq, heq⟩
    intro intent hintent f hf hseq hlog
    have hcarried := hm.queue intent hintent
    have hqueued {place : Place} (hplace : s.place = place) (hnone : intents place = []) :
        intent ∈ s.confirmQ := by
      unfold carried at hcarried
      rw [hplace, hnone, List.append_nil] at hcarried
      exact hcarried
    obtain hold | ⟨hplace, ⟨bytes, rfl⟩, hname⟩ | ⟨hplace, files, rfl, hmem⟩ := log_of_step hf hlog
    · exact h.alone intent hcarried f hold hseq hlog
    · exact absurd (hseq.symm.trans hname) (ha hplace rfl intent (hqueued hplace rfl))
    · exact ha.2 intent (hqueued hplace rfl) f hmem hseq hlog

theorem Settled.start (enabled : Bool) (retentionPercent : UInt8) :
    Settled (start enabled retentionPercent : Logger capacity) := by
  refine ⟨Confirms.start enabled retentionPercent, ?_⟩
  intro intent hintent
  cases hintent

theorem Settled.aimed_run {s : Logger capacity} (h : Settled s) {actions : List Action}
    (ha : Admitted Undisturbed Logger.step s actions) : Admitted Aimed Logger.step s actions := by
  induction actions generalizing s with
  | nil => trivial
  | cons a actions ih => exact ⟨h.aimed ha.1, ih (h.step ha.1) ha.2⟩

/-- In every run in which each queued confirm comes to rename the file that it was accepted for, a
file is renamed or marked only once it has heard the answer; and so it is in every run in which no
mount and no open brings another file under a queued number. -/
theorem confirm_reaches_its_chunk (enabled : Bool) (retentionPercent : UInt8)
    (before : List Action) (a : Action) :
    (Admitted Aimed step (start enabled retentionPercent : Logger capacity) (before ++ [a]) →
      (run enabled retentionPercent before : Logger capacity).Earned a) ∧
    (Admitted Undisturbed step (start enabled retentionPercent : Logger capacity)
        (before ++ [a]) →
      Admitted Aimed step (start enabled retentionPercent : Logger capacity) (before ++ [a])) := by
  refine ⟨?_, (Settled.start enabled retentionPercent).aimed_run⟩
  intro ha
  obtain ⟨hbefore, hlast, -⟩ := Admitted.append_iff.mp ha
  have h : Confirms (run enabled retentionPercent before : Logger capacity) := Confirms.run hbefore
  refine ⟨?_, ?_⟩
  · intro f hf _ hnew hold
    exact h.renames_earned hlast hf hnew hold
  · intro e he hconfirmed hnew
    exact h.marks_earned hlast he hconfirmed hnew

/-- A card with one chunk is mounted and scanned, and the next file opened. -/
def bringUp (files : Directory) : List Action :=
  [.mount files, .writer true 0, .writer true 0, .writer true 0, .writer true 4096, .writer true 0,
    .openNextFile, .writer true 0, .writer true 0, .writer true 0]

/-- The writer takes the confirm from the queue, up to its rename. -/
def confirmedRun : List Action := bringUp [⟨0, 5, .log⟩] ++ [.confirm 5, .drain, .writer true 0]

theorem confirm_reaches_its_chunk_sample :
    (run true 50 confirmedRun : Logger 8).place = .moving ⟨5, some 0⟩ true ∧
      (run true 50 confirmedRun : Logger 8).Earned (.writer true 0) := by
  have h := @confirm_reaches_its_chunk 8 true 50 confirmedRun (.writer true 0)
  exact ⟨by rfl, h.1 (h.2 (by decide))⟩

/-- Before the writer comes to the confirm, a write fails and another card is put in. -/
def swappedRun : List Action :=
  bringUp [⟨0, 5, .log⟩] ++
    [.confirm 5, .fail, .writer true 0, .unmount, .writer true 0, .writer true 0] ++
    bringUp [⟨7, 5, .log⟩] ++ [.drain, .writer true 0]

theorem confirm_reaches_other_card :
    ¬(run true 50 swappedRun : Logger 8).Earned (.writer true 0) := by
  intro h
  have hearned := h.1 ⟨7, 5, .log⟩ (by decide) rfl (by decide) (by decide)
  exact absurd hearned (by decide)

end Logger

end EspCars.SdLogger
