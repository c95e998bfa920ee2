import SilkChiffon.Arrow.FileRanges
import SilkChiffon.Arrow.StreamScan

/-!
# Messages of a stream

Reading one message: what is asked of the store, where the message lies, and
whose errors there are.
-/

namespace SilkChiffon.Arrow.Ipc

variable {α τ β γ : Type} {object : StoredObject} {codec : StreamCodec τ α}

def Bounded (object : StoredObject) (events : List (ScanEvent α)) : Prop :=
  ∀ bytes ∈ reads events, bytes.1 ≤ bytes.2 ∧ bytes.2 ≤ object.size ∧ bytes.2 - bytes.1 ≤ maxIpcSafetyBytes

def Raised (codec : StreamCodec τ α) (object : StoredObject) (e : IpcError) : Prop :=
  e ≠ .unfinished ∨ (∃ start stop, object.getRange start stop = .error e) ∨
    ∃ bytes, codec.bodyLength bytes = .error e

def Keeps (codec : StreamCodec τ α) (object : StoredObject) (x : Scan α β) (Q : β → Prop) : Prop :=
  x.Ensures (fun events b => Bounded object events ∧ Q b) fun events e => Bounded object events ∧ Raised codec object e

theorem checkedAdd_finishes (a b : Nat) (message : String) : checkedAdd a b message ≠ .error .unfinished := by
  unfold checkedAdd
  split <;> simp

theorem unsigned_finishes (value : Int) (message : String) : unsigned value message ≠ .error .unfinished := by
  unfold unsigned
  split <;> simp

theorem bounded_nil : Bounded object ([] : List (ScanEvent α)) := by simp [Bounded, reads]

theorem Bounded.append {events : List (ScanEvent α)} (h : Bounded object events) (h' : Bounded object events') :
    Bounded object (events ++ events') := by
  intro bytes hbytes
  rw [reads_append, List.mem_append] at hbytes
  exact hbytes.elim (h bytes) (h' bytes)

theorem keeps_pure {Q : β → Prop} (h : Q b) : Keeps codec object (pure b : Scan α β) Q :=
  Emit.ensures_pure ⟨bounded_nil, h⟩

theorem keeps_throw {e : IpcError} {Q : β → Prop} (h : e ≠ .unfinished) :
    Keeps codec object (Emit.throw e : Scan α β) Q :=
  Emit.ensures_throw ⟨bounded_nil, .inl h⟩

theorem Keeps.bind {x : Scan α β} {f : β → Scan α γ} {Q : β → Prop} {R : γ → Prop} (hx : Keeps codec object x Q)
    (hf : ∀ b, Q b → Keeps codec object (f b) R) : Keeps codec object (x >>= f) R := by
  refine Emit.Ensures.bind hx fun events b hb => ?_
  exact (hf b hb.2).mono (fun _ _ h => ⟨hb.1.append h.1, h.2⟩) fun _ _ h => ⟨hb.1.append h.1, h.2⟩

theorem keeps_lift {x : Except IpcError β} {Q : β → Prop} (hx : x ≠ .error .unfinished)
    (h : ∀ b, x = .ok b → Q b) : Keeps codec object (Emit.lift x : Scan α β) Q := by
  refine Emit.ensures_lift (fun b hb => ⟨bounded_nil, h b hb⟩) fun e he => ⟨bounded_nil, .inl ?_⟩
  rintro rfl
  exact hx he

theorem keeps_bodyLength (metadata : Bytes) :
    Keeps codec object (Emit.lift (codec.bodyLength metadata) : Scan α Int64) fun _ => True :=
  Emit.ensures_lift (fun _ _ => ⟨bounded_nil, trivial⟩) fun _ he => ⟨bounded_nil, .inr (.inr ⟨_, he⟩)⟩

theorem keeps_getRange (hle : start ≤ stop) (hstop : stop ≤ object.size) (hshort : stop - start ≤ maxIpcSafetyBytes) :
    Keeps codec object (getRange object start stop : Scan α Bytes) fun bytes =>
      object.getRange start stop = .ok bytes := by
  have hread : Bounded object ([.read start stop] : List (ScanEvent α)) := by
    intro bytes hbytes
    obtain rfl := List.mem_singleton.mp hbytes
    exact ⟨hle, hstop, hshort⟩
  rw [getRange]
  exact Emit.ensures_emit_bind
    (Emit.ensures_lift (fun _ h => ⟨hread, h⟩) fun _ h => ⟨hread, .inr (.inl ⟨_, _, h⟩)⟩)

theorem messageHeader_keeps (h : 4 ≤ object.size - offset) (identity : String) :
    Keeps codec object (messageHeader object offset identity : Scan α (Nat × Nat)) fun header =>
      4 ≤ header.1 ∧ header.1 ≤ 8 ∧ header.1 ≤ object.size - offset := by
  rw [messageHeader]
  refine (keeps_getRange (by omega) (by omega) (by rw [maxIpcSafetyBytes]; omega)).bind fun first _ => ?_
  split
  · exact keeps_throw IpcError.noConfusion
  · split
    · exact keeps_pure ⟨Nat.le_refl _, Nat.le_add_right 4 4, h⟩
    · split
      · exact keeps_throw IpcError.noConfusion
      · rename_i hlong
        refine (keeps_getRange (by omega) (by omega) (by rw [maxIpcSafetyBytes]; omega)).bind fun length _ => ?_
        split
        · exact keeps_throw IpcError.noConfusion
        · exact keeps_pure ⟨Nat.le_add_right 4 4, Nat.le_refl _, Nat.not_lt.mp hlong⟩

/-- A message starts at the offset, ends behind it, and is within the object. -/
def Advances (object : StoredObject) (offset : Nat) : StreamMessageRead → Prop
  | .done => offset = object.size
  | .message bytes stop => offset < stop ∧ stop ≤ object.size ∧ object.getRange offset stop = .ok bytes
  | .safetyBoundExceeded => True

theorem readStreamMessage_keeps (codec : StreamCodec τ α) (object : StoredObject) (offset : Nat)
    (identity : String) :
    Keeps codec object (readStreamMessage codec object offset identity) (Advances object offset) := by
  rw [readStreamMessage]
  split
  · exact keeps_pure ‹_›
  · split
    · exact keeps_throw IpcError.noConfusion
    · rename_i hshort
      have hshort := Nat.not_lt.mp hshort
      refine (messageHeader_keeps hshort identity).bind ?_
      rintro ⟨headerLen, metadataLen⟩ ⟨hfour, height, hheader⟩
      dsimp only at hfour height hheader ⊢
      split
      · refine (keeps_getRange (by omega) (by omega) (by rw [maxIpcSafetyBytes]; omega)).bind fun bytes hbytes => ?_
        exact keeps_pure ⟨by omega, by omega, hbytes⟩
      · refine (keeps_lift (Q := fun start => start = offset + headerLen) (checkedAdd_finishes _ _ _)
          fun _ h => (checkedAdd_ok h).1).bind ?_
        rintro _ rfl
        refine (keeps_lift (Q := fun stop => stop = offset + headerLen + metadataLen) (checkedAdd_finishes _ _ _)
          fun _ h => (checkedAdd_ok h).1).bind ?_
        rintro _ rfl
        split
        · exact keeps_throw IpcError.noConfusion
        · rename_i hmetadata
          split
          · exact keeps_pure trivial
          · rename_i hsafe
            refine (keeps_getRange (by omega) (by omega) (by omega)).bind fun metadata _ => ?_
            refine (keeps_bodyLength metadata).bind fun bodyLength _ => ?_
            refine (keeps_lift (Q := fun _ => True) (unsigned_finishes _ _) fun _ _ => trivial).bind fun bodyLen _ => ?_
            refine (keeps_lift (Q := fun stop => stop = offset + headerLen + metadataLen + bodyLen)
              (checkedAdd_finishes _ _ _) fun _ h => (checkedAdd_ok h).1).bind ?_
            rintro _ rfl
            split
            · exact keeps_throw IpcError.noConfusion
            · rename_i hinside
              split
              · exact keeps_pure trivial
              · rename_i hfits
                refine (keeps_getRange (by omega) (by omega) (by omega)).bind fun bytes hbytes => ?_
                exact keeps_pure ⟨by omega, by omega, hbytes⟩

end SilkChiffon.Arrow.Ipc
