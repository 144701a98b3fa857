import Scriptlet.Run.State

/-!
# All variables of a state

`State.All P` says of every variable of a state, visible or not, that `P` holds of it. Each change of
the state keeps it, if `P` holds of what is put in.
-/

namespace Scriptlet.Run

variable {P : Binding → Prop} {name : String} {b : Binding}

def VarsAll (P : Binding → Prop) (vars : Vars) : Prop :=
  ∀ name b, vars.get? name = some b → P b

theorem VarsAll.empty : VarsAll P .empty := nofun

theorem VarsAll.insert {vars : Vars} (h : VarsAll P vars) (hb : P b) :
    VarsAll P (vars.insert name b) := by
  intro other b' hother
  rw [Table.get?_insert] at hother
  split at hother
  · cases hother; exact hb
  · exact h other b' hother

structure Frame.All (P : Binding → Prop) (f : Frame) : Prop where
  base : VarsAll P f.base
  blocks : ∀ block ∈ f.blocks, VarsAll P block

namespace Frame.All

variable {f : Frame}

theorem binding (h : f.All P) (hb : f.binding? name = some b) : P b := by
  rw [binding?, Option.or_eq_some_iff] at hb
  obtain hb | ⟨-, hb⟩ := hb
  · obtain ⟨block, hblock, hb⟩ := List.exists_of_findSome?_eq_some hb
    exact h.blocks block hblock name b hb
  · exact h.base name b hb

theorem declare (h : f.All P) (hb : P b) : (f.declare name b).All P := by
  obtain ⟨_ | ⟨block, blocks⟩, base⟩ := f
  · exact ⟨h.base.insert hb, nofun⟩
  · have hblocks := List.forall_mem_cons.1 h.blocks
    exact ⟨h.base, List.forall_mem_cons.2 ⟨hblocks.1.insert hb, hblocks.2⟩⟩

theorem pushBlock (h : f.All P) : f.pushBlock.All P :=
  ⟨h.base, List.forall_mem_cons.2 ⟨.empty, h.blocks⟩⟩

theorem popBlock (h : f.All P) : f.popBlock.All P :=
  ⟨h.base, fun block hblock => h.blocks block (List.mem_of_mem_tail hblock)⟩

theorem replaceIn (hb : P b) {scopes : List Vars} (h : ∀ scope ∈ scopes, VarsAll P scope) :
    ∀ scope ∈ Frame.replaceIn name b scopes, VarsAll P scope := by
  induction scopes with
  | nil => nofun
  | cons scope rest ih =>
    obtain ⟨hscope, hrest⟩ := List.forall_mem_cons.1 h
    unfold Frame.replaceIn
    split
    · exact List.forall_mem_cons.2 ⟨hscope.insert hb, hrest⟩
    · exact List.forall_mem_cons.2 ⟨hscope, ih hrest⟩

theorem replace (h : f.All P) (hb : P b) : (f.replace name b).All P := by
  unfold Frame.replace
  split
  · exact ⟨h.base, replaceIn hb h.blocks⟩
  · exact ⟨h.base.insert hb, h.blocks⟩

end Frame.All

structure State.All (P : Binding → Prop) (s : State) : Prop where
  globals : s.globals.All P
  calls : ∀ f ∈ s.calls, f.All P

namespace State.All

variable {s : State}

theorem binding (h : s.All P) (hb : s.binding? name = some b) : P b := by
  unfold binding? at hb
  split at hb
  · exact h.globals.binding hb
  · next hcalls =>
    rw [Option.or_eq_some_iff] at hb
    obtain hb | ⟨-, hb⟩ := hb
    · exact (h.calls _ (hcalls ▸ List.mem_cons_self)).binding hb
    · exact h.globals.base name b hb

theorem mapFrame {g : Frame → Frame} (h : s.All P) (hg : ∀ f : Frame, f.All P → (g f).All P) :
    (s.mapFrame g).All P := by
  unfold State.mapFrame
  split
  · next hcalls => exact ⟨hg _ h.globals, hcalls ▸ nofun⟩
  · next frame rest hcalls =>
    have hframes : ∀ f ∈ frame :: rest, f.All P := hcalls ▸ h.calls
    exact ⟨h.globals, List.forall_mem_cons.2
      ⟨hg _ (hframes _ List.mem_cons_self), fun f hf => hframes f (List.mem_cons_of_mem _ hf)⟩⟩

theorem replace (h : s.All P) (hb : P b) : (s.replace name b).All P := by
  unfold State.replace
  split
  · next hcalls => exact ⟨h.globals.replace hb, hcalls ▸ nofun⟩
  · next frame rest hcalls =>
    have hframes : ∀ f ∈ frame :: rest, f.All P := hcalls ▸ h.calls
    split
    · exact ⟨h.globals, List.forall_mem_cons.2 ⟨(hframes _ List.mem_cons_self).replace hb,
        fun f hf => hframes f (List.mem_cons_of_mem _ hf)⟩⟩
    · exact ⟨⟨h.globals.base.insert hb, h.globals.blocks⟩, h.calls⟩

theorem mono {P' : Binding → Prop} (h : s.All P) (hP : ∀ b, P b → P' b) : s.All P' := by
  have hframe {f : Frame} (hf : f.All P) : f.All P' :=
    ⟨fun name b hb => hP b (hf.base name b hb),
      fun block hblock name b hb => hP b (hf.blocks block hblock name b hb)⟩
  exact ⟨hframe h.globals, fun f hf => hframe (h.calls f hf)⟩

theorem enter {params : Vars} (h : s.All P) (hparams : VarsAll P params) :
    State.All P { s with calls := { base := params } :: s.calls } :=
  ⟨h.globals, List.forall_mem_cons.2 ⟨⟨hparams, nofun⟩, h.calls⟩⟩

theorem leave (h : s.All P) : State.All P { s with calls := s.calls.tail } :=
  ⟨h.globals, fun f hf => h.calls f (List.mem_of_mem_tail hf)⟩

end State.All

end Scriptlet.Run
