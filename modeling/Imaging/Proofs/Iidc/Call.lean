/-
Calls by raw numbers answer for the requests that they name. The arguments of a call are a list of requirements, in the
order in which they are read; where all of them hold, the arguments name one request. `Answers` says what the caller
gets: zero and the image of the request where it succeeds, and else the code of the first refusal, be it of an argument
or of the request itself, with the destination as it was.
- `Answers.of_chain`: a chain of readers in front of a request answers for it;
- `sparesOrders_convert` and its companions: no request blames a byte order, so that code is left to the arguments;
- `calls_answer`: all calls.
-/
import Imaging.Iidc.Call
import Imaging.Proofs.AllOrNothing
import Imaging.Proofs.Verdict

namespace Imaging

/-! ## What requests blame -/

/-- a check that never blames a byte order -/
def SparesOrders {α : Type} (check : Except Refusal α) : Prop := ∀ raw, check ≠ .error (.byteOrder raw)

theorem Refusal.code_mem {e : Refusal} (h : ∀ raw, e ≠ .byteOrder raw) : e.code ∈ [-1, -3, -4, -5] := by
  cases e with
  | byteOrder raw => exact absurd rfl (h raw)
  | unsupported | parameter | dimensions | length => simp [code]

namespace SparesOrders

variable {α β : Type} {e : Refusal}

theorem bind {check : Except Refusal α} {next : α → Except Refusal β} (h : SparesOrders check)
    (hnext : ∀ a, SparesOrders (next a)) : SparesOrders (check >>= next) := by
  intro raw hraw
  rcases bind_eq_error_iff.mp hraw with herror | ⟨a, _, herror⟩
  · exact h raw herror
  · exact hnext a raw herror

theorem require {p : Prop} [Decidable p] (h : ∀ raw, e ≠ .byteOrder raw) : SparesOrders (Imaging.require p e) :=
  fun raw hraw => h raw (require_eq_error_iff.mp hraw).2

theorem requireSome {o : Option α} (h : ∀ raw, e ≠ .byteOrder raw) : SparesOrders (Imaging.requireSome o e) :=
  fun raw hraw => h raw (requireSome_eq_error_iff.mp hraw).2

theorem requireLength (expected received : Nat) : SparesOrders (Imaging.requireLength expected received) :=
  .require nofun

theorem guarded {dst : Array β} {check : Except Refusal α} {write : α → Array β} (h : SparesOrders check) :
    SparesOrders (Outcome.guarded dst check write).result := by
  cases check with
  | error e => exact fun raw hraw => h raw (congrArg Except.error (Except.error.inj hraw))
  | ok a => nofun

end SparesOrders

theorem Mosaic.sparesOrders_ofBuffer (w h : Nat) (buffer : Array Nat) : SparesOrders (ofBuffer w h buffer) := by
  intro raw hraw
  rw [ofBuffer] at hraw
  split at hraw
  · cases hraw
  · split at hraw
    · cases hraw
    · cases hraw

theorem Raster.sparesOrders_ofBuffer (w h ceiling : Nat) (buffer : Array Nat) :
    SparesOrders (ofBuffer w h ceiling buffer) := by
  intro raw hraw
  rw [ofBuffer] at hraw
  split at hraw
  · cases hraw
  · split at hraw
    · cases hraw
    · cases hraw

theorem sparesOrders_convert (r : Request) (src dst : Array UInt8) : SparesOrders (convert r src dst).result := by
  refine .guarded ?_
  refine .bind (.require nofun) fun _ => ?_
  refine .bind (.require nofun) fun _ => ?_
  refine .bind (.require nofun) fun _ => ?_
  refine .bind (.requireSome nofun) fun _ => ?_
  refine .bind (.requireSome nofun) fun _ => ?_
  exact .bind (.requireLength _ _) fun _ => .requireLength _ _

theorem sparesOrders_decode (t : Tile) (k : Method) (w h ceiling : Nat) (src dst : Array Nat) :
    SparesOrders (Demosaic.decode t k w h ceiling src dst).result := by
  refine .guarded ?_
  refine .bind (.require nofun) fun _ => ?_
  refine .bind (Mosaic.sparesOrders_ofBuffer _ _ _) fun m => ?_
  exact .bind (Raster.sparesOrders_ofBuffer _ _ _ _) fun r => nofun

theorem sparesOrders_decode8 (t : Tile) (k : Method) (w h : Nat) (src dst : Array UInt8) :
    SparesOrders (decode8 t k w h src dst).result := sparesOrders_decode t k w h 255 _ _

theorem sparesOrders_decode16 (t : Tile) (k : Method) (w h bits : Nat) (src dst : Array UInt16) :
    SparesOrders (decode16 t k w h bits src dst).result := by
  by_cases hdepth : ValidDepth bits
  · rw [decode16, requireDepth, require_of hdepth, Outcome.provided_ok]
    exact sparesOrders_decode t k w h (ceiling bits) _ _
  · rw [decode16, requireDepth, require_of_not hdepth, Outcome.provided_error]
    rintro raw ⟨⟩

theorem sparesOrders_splitStereo (w h : Nat) (src dst : Array UInt8) :
    SparesOrders (splitStereo w h src dst).result := by
  refine .guarded ?_
  refine .bind (.require nofun) fun _ => ?_
  refine .bind (.require nofun) fun _ => ?_
  exact .bind (.requireLength _ _) fun _ => .requireLength _ _

/-! ## Calls -/

namespace Iidc

/-- a number that stands for a value -/
def known {α : Type} (code : α → Nat) (raw : Nat) (e : Refusal) : Requirement where
  holds := ∃ a, code a = raw
  refusal := e

/-- both buffers are there -/
def present {α : Type} (src dst : Option (Array α)) : Requirement where
  holds := ∃ s d, src = some s ∧ dst = some d
  refusal := .parameter .buffer

/-- how a call answers, by its arguments in the order in which they are read and by the request that they name -/
structure Answers {α : Type} (dst : Option (Array α)) (arguments : List Requirement) (names : Outcome α → Prop)
    (answer : Reply α) : Prop where
  /-- the arguments name a request exactly where each of them can be read -/
  named_iff : (∃ o, names o) ↔ ∀ q ∈ arguments, q.holds
  /-- zero means that this request succeeds, and is the answer wherever it does -/
  status_eq_zero_iff : answer.status = 0 ↔ ∃ image, names (.written image)
  /-- the destination is then what the request writes -/
  written : ∀ image, names (.written image) → answer = { status := 0, dst := some image }
  /-- any other status is the code of the first refusal, and the destination is as it was -/
  refused : answer.status ≠ 0 → ∃ e, (FirstFailing arguments e ∨ ∃ after, names (.refused e after)) ∧
    answer = { status := e.code, dst := dst }
  /-- a request that is refused has its own codes -/
  own : ∀ e after, names (.refused e after) → e.code ∈ [-1, -3, -4, -5]

section Chain

variable {α β : Type} {reqs : List Requirement} {verdict : Except Refusal Unit}

theorem map_bind {γ δ : Type} (x : Except Refusal β) (f : β → Except Refusal γ) (g : γ → δ) :
    (x >>= f).map g = x >>= fun b => (f b).map g := by
  cases x <;> rfl

/-- a number that is read, in front of the rest -/
theorem decidedBy_known {code : β → Nat} {raw : Nat} {e : Refusal} {read : Except Refusal β}
    (hread : ∀ {b}, read = .ok b ↔ code b = raw) (herror : ∀ {e'}, read = .error e' → e' = e)
    {next : β → Except Refusal Unit} (hnext : ∀ b, DecidedBy (next b) reqs) :
    DecidedBy (read >>= next) (known code raw e :: reqs) := by
  refine .cons ?_ ?_
  · intro hunknown
    cases hr : read with
    | error e' =>
      rw [herror hr]
      rfl
    | ok b => exact absurd ⟨b, hread.mp hr⟩ hunknown
  · rintro ⟨b, hb⟩
    rw [hread.mpr hb]
    exact hnext b

theorem buffers_eq_ok_iff {src dst : Option (Array α)} {s d : Array α} :
    buffers src dst = .ok (s, d) ↔ src = some s ∧ dst = some d := by
  cases src <;> cases dst <;> simp [buffers]

theorem decidedBy_present {src dst : Option (Array α)} (request : Array α × Array α → Outcome α) :
    DecidedBy ((buffers src dst >>= fun v => .ok (request v)).map fun _ => ()) [present src dst] := by
  refine .cons ?_ ?_
  · intro habsent
    cases src with
    | none => rfl
    | some s =>
      cases dst with
      | none => rfl
      | some d => exact absurd ⟨s, d, rfl, rfl⟩ habsent
  · rintro ⟨s, d, rfl, rfl⟩
    exact .nil

variable {dst : Option (Array α)} {names : Outcome α → Prop} {chain : Except Refusal (Outcome α)}

/-- a reply is the image of the request that the arguments name, or the first refusal -/
theorem reply_cases (hdecided : DecidedBy (chain.map fun _ => ()) reqs) (hnames : ∀ o, chain = .ok o ↔ names o)
    (hkept : ∀ e after, names (.refused e after) → dst = some after) :
    (∃ image, names (.written image) ∧ reply dst chain = { status := 0, dst := some image }) ∨
      ∃ e, (FirstFailing reqs e ∨ ∃ after, names (.refused e after)) ∧
        reply dst chain = { status := e.code, dst := dst } := by
  cases hchain : chain with
  | error e =>
    have hfirst : FirstFailing reqs e := by
      rw [← hdecided.refused_iff, hchain]
      rfl
    exact .inr ⟨e, .inl hfirst, rfl⟩
  | ok o =>
    have ho := (hnames o).mp hchain
    obtain ⟨result, after⟩ := o
    cases result with
    | ok u => exact .inl ⟨after, ho, rfl⟩
    | error e =>
      refine .inr ⟨e, .inr ⟨after, ho⟩, ?_⟩
      rw [hkept e after ho]
      rfl

/-- **A chain of readers in front of a request** answers for it, where what it names is all or nothing. -/
theorem Answers.of_chain (hdecided : DecidedBy (chain.map fun _ => ()) reqs) (hnames : ∀ o, chain = .ok o ↔ names o)
    (hrun : ∀ o, names o → ∃ run d, dst = some d ∧ o = run d ∧ AllOrNothing run ∧ SparesOrders (run d).result) :
    Answers dst reqs names (reply dst chain) := by
  have hkept (e : Refusal) (after : Array α) (ho : names (.refused e after)) : dst = some after := by
    obtain ⟨run, d, hd, hrun, hnothing, _⟩ := hrun _ ho
    have hafter := hnothing.refused d e (congrArg Outcome.result hrun).symm
    rw [← hrun] at hafter
    rw [hd, ← hafter]
    rfl
  have hwritten (image : Array α) (ho : names (.written image)) :
      reply dst chain = { status := 0, dst := some image } := by
    rw [(hnames _).mpr ho]
    rfl
  have hcases := reply_cases hdecided hnames hkept
  refine ⟨?_, ⟨?_, ?_⟩, hwritten, ?_, ?_⟩
  · rw [← hdecided.accepted_iff]
    cases hchain : chain with
    | error e =>
      refine ⟨?_, nofun⟩
      rintro ⟨o, ho⟩
      cases hchain.symm.trans ((hnames o).mpr ho)
    | ok o => exact ⟨fun _ => rfl, fun _ => ⟨o, (hnames o).mp hchain⟩⟩
  · intro hzero
    rcases hcases with ⟨image, ho, _⟩ | ⟨e, _, hreply⟩
    · exact ⟨image, ho⟩
    · have hneg := e.code_neg
      rw [hreply] at hzero
      exact absurd hzero (Int.ne_of_lt hneg)
  · rintro ⟨image, ho⟩
    rw [hwritten image ho]
  · intro hstatus
    rcases hcases with ⟨image, _, hreply⟩ | hrefused
    · exact absurd (congrArg Reply.status hreply) hstatus
    · exact hrefused
  · intro e after ho
    obtain ⟨run, d, _, hrun, _, hspares⟩ := hrun _ ho
    refine Refusal.code_mem fun raw he => ?_
    rw [← hrun, he] at hspares
    exact hspares raw rfl

end Chain

/-! ### Arguments -/

/-- the arguments of a conversion: byte order, coding, buffers -/
def convertArguments (order coding : Nat) (src dst : Option (Array UInt8)) : List Requirement :=
  [known ByteOrder.code order (.byteOrder order), known Coding.code coding (.parameter .colourCoding), present src dst]

/-- the arguments of a demosaicing: filter, method, buffers -/
def decodeArguments {α : Type} (tile method : Nat) (src dst : Option (Array α)) : List Requirement :=
  [known Tile.code tile (.parameter .colourFilter), known Method.code method (.parameter .method), present src dst]

theorem decidedBy_convertArguments {order coding : Nat} {src dst : Option (Array UInt8)}
    (request : ByteOrder → Coding → Array UInt8 × Array UInt8 → Outcome UInt8) :
    DecidedBy ((readOrder order >>= fun o => readCoding coding >>= fun c =>
      buffers src dst >>= fun v => .ok (request o c v)).map fun _ => ()) (convertArguments order coding src dst) := by
  rw [map_bind]
  refine decidedBy_known readOrder_eq_ok_iff (fun h => (requireSome_eq_error_iff.mp h).2.symm) fun o => ?_
  rw [map_bind]
  refine decidedBy_known readCoding_eq_ok_iff (fun h => (requireSome_eq_error_iff.mp h).2.symm) fun c => ?_
  exact decidedBy_present (request o c)

theorem decidedBy_decodeArguments {α : Type} {tile method : Nat} {src dst : Option (Array α)}
    (request : Tile → Method → Array α × Array α → Outcome α) :
    DecidedBy ((readTile tile >>= fun t => readMethod method >>= fun k =>
      buffers src dst >>= fun v => .ok (request t k v)).map fun _ => ()) (decodeArguments tile method src dst) := by
  rw [map_bind]
  refine decidedBy_known readTile_eq_ok_iff (fun h => (requireSome_eq_error_iff.mp h).2.symm) fun t => ?_
  rw [map_bind]
  refine decidedBy_known readMethod_eq_ok_iff (fun h => (requireSome_eq_error_iff.mp h).2.symm) fun k => ?_
  exact decidedBy_present (request t k)

section Named

variable {α β γ : Type} {src dst : Option (Array α)}

/-- with both buffers there, the request is made on them -/
theorem buffers_bind_eq_ok_iff (request : Array α × Array α → Outcome α) (o : Outcome α) :
    (buffers src dst >>= fun v => .ok (request v)) = .ok o ↔
      ∃ s d, src = some s ∧ dst = some d ∧ o = request (s, d) := by
  constructor
  · intro hok
    obtain ⟨⟨s, d⟩, hbuffers, hrequest⟩ := bind_eq_ok_iff.mp hok
    obtain ⟨hs, hd⟩ := buffers_eq_ok_iff.mp hbuffers
    exact ⟨s, d, hs, hd, (Except.ok.inj hrequest).symm⟩
  · rintro ⟨s, d, rfl, rfl, rfl⟩
    rfl

/-- with both numbers known as well, it is made with the values that they stand for -/
theorem readers_bind_eq_ok_iff {first : Except Refusal β} {second : Except Refusal γ} {P : β → Prop} {Q : γ → Prop}
    (hfirst : ∀ {b}, first = .ok b ↔ P b) (hsecond : ∀ {c}, second = .ok c ↔ Q c)
    (request : β → γ → Array α × Array α → Outcome α) (o : Outcome α) :
    (first >>= fun b => second >>= fun c => buffers src dst >>= fun v => .ok (request b c v)) = .ok o ↔
      ∃ b c s d, P b ∧ Q c ∧ src = some s ∧ dst = some d ∧ o = request b c (s, d) := by
  constructor
  · intro hok
    obtain ⟨b, hb, hok⟩ := bind_eq_ok_iff.mp hok
    obtain ⟨c, hc, hok⟩ := bind_eq_ok_iff.mp hok
    obtain ⟨s, d, hs, hd, ho⟩ := (buffers_bind_eq_ok_iff _ o).mp hok
    exact ⟨b, c, s, d, hfirst.mp hb, hsecond.mp hc, hs, hd, ho⟩
  · rintro ⟨b, c, s, d, hb, hc, hrequest⟩
    rw [hfirst.mpr hb, hsecond.mpr hc]
    exact (buffers_bind_eq_ok_iff _ o).mpr ⟨s, d, hrequest⟩

end Named

/-- **Calls answer for their requests.** Whatever the numbers and whichever buffers are there, a call answers for the
request that its arguments name: conversions read the byte order, the coding and the buffers, demosaicing reads the
filter, the method and the buffers, and splitting asks for the buffers alone. -/
theorem calls_answer :
    (∀ (target : Target) (order coding w h bits : Nat) (src dst : Option (Array UInt8)),
      Answers dst (convertArguments order coding src dst)
        (fun o => ∃ byteOrder source s d, ByteOrder.code byteOrder = order ∧ Coding.code source = coding ∧
          src = some s ∧ dst = some d ∧
            o = Imaging.convert { source, target, width := w, height := h, order := byteOrder, bits } s d)
        (convert target order coding w h bits src dst)) ∧
    (∀ (tile method w h : Nat) (src dst : Option (Array UInt8)),
      Answers dst (decodeArguments tile method src dst)
        (fun o => ∃ t k s d, Tile.code t = tile ∧ Method.code k = method ∧ src = some s ∧ dst = some d ∧
          o = Imaging.decode8 t k w h s d)
        (decode8 tile method w h src dst)) ∧
    (∀ (tile method w h bits : Nat) (src dst : Option (Array UInt16)),
      Answers dst (decodeArguments tile method src dst)
        (fun o => ∃ t k s d, Tile.code t = tile ∧ Method.code k = method ∧ src = some s ∧ dst = some d ∧
          o = Imaging.decode16 t k w h bits s d)
        (decode16 tile method w h bits src dst)) ∧
    (∀ (w h : Nat) (src dst : Option (Array UInt8)),
      Answers dst [present src dst]
        (fun o => ∃ s d, src = some s ∧ dst = some d ∧ o = Imaging.splitStereo w h s d)
        (splitStereo w h src dst)) ∧
    (∀ order coding src dst, (convertArguments order coding src dst).map (fun q => q.refusal.code) = [-2, -3, -3]) ∧
    (∀ {α : Type} tile method (src dst : Option (Array α)),
      (decodeArguments tile method src dst).map (fun q => q.refusal.code) = [-3, -3, -3]) ∧
    ∀ {α : Type} (src dst : Option (Array α)), (present src dst).refusal.code = -3 := by
  refine ⟨?_, ?_, ?_, ?_, fun _ _ _ _ => rfl, fun _ _ _ _ => rfl, fun _ _ => rfl⟩
  · intro target order coding w h bits src dst
    refine .of_chain (decidedBy_convertArguments fun _ _ _ => _)
      (readers_bind_eq_ok_iff readOrder_eq_ok_iff readCoding_eq_ok_iff fun _ _ _ => _) ?_
    rintro _ ⟨byteOrder, source, s, d, _, _, _, rfl, rfl⟩
    exact ⟨_, d, rfl, rfl, .of_settled (settled_convert _ s), sparesOrders_convert _ s d⟩
  · intro tile method w h src dst
    refine .of_chain (decidedBy_decodeArguments fun _ _ _ => _)
      (readers_bind_eq_ok_iff readTile_eq_ok_iff readMethod_eq_ok_iff fun _ _ _ => _) ?_
    rintro _ ⟨t, k, s, d, _, _, _, rfl, rfl⟩
    exact ⟨_, d, rfl, rfl, .of_settled (settled_decode8 t k w h s), sparesOrders_decode8 t k w h s d⟩
  · intro tile method w h bits src dst
    refine .of_chain (decidedBy_decodeArguments fun _ _ _ => _)
      (readers_bind_eq_ok_iff readTile_eq_ok_iff readMethod_eq_ok_iff fun _ _ _ => _) ?_
    rintro _ ⟨t, k, s, d, _, _, _, rfl, rfl⟩
    exact ⟨_, d, rfl, rfl, .of_settled (settled_decode16 t k w h bits s), sparesOrders_decode16 t k w h bits s d⟩
  · intro w h src dst
    refine .of_chain (decidedBy_present fun _ => _) (buffers_bind_eq_ok_iff fun _ => _) ?_
    rintro _ ⟨s, d, _, rfl, rfl⟩
    exact ⟨_, d, rfl, rfl, .of_settled (settled_splitStereo w h s), sparesOrders_splitStereo w h s d⟩

-- of three arguments that cannot be read, the first one is blamed
example : convert .rgb8 802 400 2 2 8 none (some #[7]) = { status := -2, dst := some #[7] } := by decide

end Iidc

end Imaging
