/-
  Actions that keep a property of the state they run on. The rules follow the way actions are put
  together, so that what an action keeps is read off the effects that it is made of.
-/
import DartAnalysis.Text.Basic
import Mathlib.Data.List.Basic

namespace DartAnalysis

variable {ρ σ α β : Type}

/-- Wherever the property holds before, it holds after. -/
def Keeps (I : σ → Prop) (x : StateM σ α) : Prop := ∀ s, I s → I (x s).2

/-- The same of an action in given surroundings. -/
def KeepsIn (r : ρ) (I : σ → Prop) (x : ReaderT ρ (StateM σ) α) : Prop := Keeps I (x r)

/-- In addition something is known of the result. -/
def Gives (I : σ → Prop) (Q : α → Prop) (x : StateM σ α) : Prop := ∀ s, I s → Q (x s).1 ∧ I (x s).2

def GivesIn (r : ρ) (I : σ → Prop) (Q : α → Prop) (x : ReaderT ρ (StateM σ) α) : Prop :=
  Gives I Q (x r)

/-- Where one property holds before, another one holds after. -/
def Yields (J I : σ → Prop) (x : StateM σ α) : Prop := ∀ s, J s → I (x s).2

/-- Whatever holds before, the property holds after. -/
def Ensures (I : σ → Prop) (x : StateM σ α) : Prop := ∀ s, I (x s).2

/-- The same of an action in given surroundings. -/
def EnsuresIn (r : ρ) (I : σ → Prop) (x : ReaderT ρ (StateM σ) α) : Prop := Ensures I (x r)

variable {I : σ → Prop} {r : ρ}

namespace Keeps

theorem pure (a : α) : Keeps I (Pure.pure a : StateM σ α) := fun _ h => h

theorem bind {x : StateM σ α} {f : α → StateM σ β} (hx : Keeps I x) (hf : ∀ a, Keeps I (f a)) :
    Keeps I (x >>= f) := fun s h => hf _ _ (hx s h)

theorem modify {f : σ → σ} (hf : ∀ s, I s → I (f s)) : Keeps I (modify f : StateM σ Unit) := hf

theorem forM {as : List α} {f : α → StateM σ PUnit} (h : ∀ a ∈ as, Keeps I (f a)) :
    Keeps I (as.forM f) := by
  induction as with
  | nil => exact pure _
  | cons a as ih =>
    exact bind (h a List.mem_cons_self) fun _ => ih fun b hb => h b (List.mem_cons_of_mem a hb)

theorem mapM {as : List α} {f : α → StateM σ β} (h : ∀ a ∈ as, Keeps I (f a)) :
    Keeps I (as.mapM f) := by
  induction as with
  | nil => exact pure _
  | cons a as ih =>
    rw [List.mapM_cons]
    exact bind (h a List.mem_cons_self) fun _ =>
      bind (ih fun b hb => h b (List.mem_cons_of_mem a hb)) fun _ => pure _

theorem option_forM {a? : Option α} {f : α → StateM σ PUnit} (h : ∀ a ∈ a?, Keeps I (f a)) :
    Keeps I (a?.forM f) := by
  cases a? with
  | none => exact pure _
  | some a => exact h a rfl

end Keeps

namespace KeepsIn

theorem pure (a : α) : KeepsIn r I (Pure.pure a : ReaderT ρ (StateM σ) α) := fun _ h => h

theorem bind {x : ReaderT ρ (StateM σ) α} {f : α → ReaderT ρ (StateM σ) β} (hx : KeepsIn r I x)
    (hf : ∀ a, KeepsIn r I (f a)) : KeepsIn r I (x >>= f) := Keeps.bind hx hf

theorem ask {f : ρ → ReaderT ρ (StateM σ) β} (h : KeepsIn r I (f r)) :
    KeepsIn r I (MonadReader.read >>= f) := h

theorem modify {f : σ → σ} (hf : ∀ s, I s → I (f s)) :
    KeepsIn r I (modify f : ReaderT ρ (StateM σ) PUnit) := hf

theorem forM {as : List α} {f : α → ReaderT ρ (StateM σ) PUnit} (h : ∀ a ∈ as, KeepsIn r I (f a)) :
    KeepsIn r I (as.forM f) := by
  induction as with
  | nil => exact pure _
  | cons a as ih =>
    exact bind (h a List.mem_cons_self) fun _ => ih fun b hb => h b (List.mem_cons_of_mem a hb)

theorem array_forM {as : Array α} {f : α → ReaderT ρ (StateM σ) PUnit}
    (h : ∀ a ∈ as, KeepsIn r I (f a)) : KeepsIn r I (as.forM f) := by
  obtain ⟨l⟩ := as
  rw [List.forM_toArray' l f rfl]
  exact forM fun a ha => h a (List.mem_toArray.2 ha)

theorem option_forM {a? : Option α} {f : α → ReaderT ρ (StateM σ) PUnit}
    (h : ∀ a ∈ a?, KeepsIn r I (f a)) : KeepsIn r I (a?.forM f) := by
  cases a? with
  | none => exact pure _
  | some a => exact h a rfl

theorem ite {c : Prop} [Decidable c] {x y : ReaderT ρ (StateM σ) α} (hx : KeepsIn r I x)
    (hy : KeepsIn r I y) : KeepsIn r I (if c then x else y) := by
  split
  · exact hx
  · exact hy

theorem bind_of {Q : α → Prop} {x : ReaderT ρ (StateM σ) α} {f : α → ReaderT ρ (StateM σ) β}
    (hx : GivesIn r I Q x) (hf : ∀ a, Q a → KeepsIn r I (f a)) : KeepsIn r I (x >>= f) :=
  fun s hs => hf _ (hx s hs).1 _ (hx s hs).2

end KeepsIn

namespace Gives

variable {P : α → Prop} {Q : β → Prop}

theorem pure {b : β} (hb : Q b) : Gives I Q (Pure.pure b : StateM σ β) := fun _ h => ⟨hb, h⟩

theorem bind {x : StateM σ α} {f : α → StateM σ β} (hx : Gives I P x)
    (hf : ∀ a, P a → Gives I Q (f a)) : Gives I Q (x >>= f) :=
  fun s hs => hf _ (hx s hs).1 _ (hx s hs).2

theorem after {x : StateM σ α} {f : α → StateM σ β} (hx : Keeps I x) (hf : ∀ a, Gives I Q (f a)) :
    Gives I Q (x >>= f) := fun s hs => hf _ _ (hx s hs)

theorem mapM {as : List α} {f : α → StateM σ β} (h : ∀ a ∈ as, Gives I Q (f a)) :
    Gives I (fun bs => ∀ b ∈ bs, Q b) (as.mapM f) := by
  induction as with
  | nil => exact pure fun _ hb => absurd hb List.not_mem_nil
  | cons a as ih =>
    rw [List.mapM_cons]
    refine bind (h a List.mem_cons_self) fun b hb => ?_
    refine bind (ih fun a' ha' => h a' (List.mem_cons_of_mem a ha')) fun bs hbs => pure fun b' hb' => ?_
    rcases List.mem_cons.1 hb' with rfl | hb'
    · exact hb
    · exact hbs b' hb'

theorem foldlM {as : List α} {f : β → α → StateM σ β}
    (h : ∀ b, Q b → ∀ a ∈ as, Gives I Q (f b a)) {b : β} (hb : Q b) : Gives I Q (as.foldlM f b) := by
  induction as generalizing b with
  | nil => exact pure hb
  | cons a as ih =>
    rw [List.foldlM_cons]
    exact bind (h b hb a List.mem_cons_self) fun c hc =>
      ih (fun b hb a' ha' => h b hb a' (List.mem_cons_of_mem a ha')) hc

theorem keeps {x : StateM σ α} {f : α → StateM σ β} (hx : Gives I P x) (hf : ∀ a, P a → Keeps I (f a)) :
    Keeps I (x >>= f) := fun s hs => hf _ (hx s hs).1 _ (hx s hs).2

end Gives

theorem Yields.forM {J : σ → Prop} {as : List α} {f : α → StateM σ PUnit} {a : α} (ha : a ∈ as)
    (h : Yields J I (f a)) (hJ : ∀ b ∈ as, Keeps J (f b))
    (hI : ∀ b ∈ as, Keeps (fun s => J s ∧ I s) (f b)) : Yields J I (as.forM f) := by
  induction as with
  | nil => cases ha
  | cons b as ih =>
    have hrest : ∀ c ∈ as, c ∈ b :: as := fun c hc => List.mem_cons_of_mem b hc
    intro s hs
    have hb : J (f b s).2 := hJ b List.mem_cons_self s hs
    rcases List.mem_cons.1 ha with rfl | ha
    · exact (Keeps.forM (fun c hc => hI c (hrest c hc)) _ ⟨hb, h s hs⟩).2
    · exact ih ha (fun c hc => hJ c (hrest c hc)) (fun c hc => hI c (hrest c hc)) _ hb

namespace EnsuresIn

/-- It is the first of two actions that sees to it. -/
theorem bind_first {x : ReaderT ρ (StateM σ) α} {f : α → ReaderT ρ (StateM σ) β}
    (hx : EnsuresIn r I x) (hf : ∀ a, KeepsIn r I (f a)) : EnsuresIn r I (x >>= f) :=
  fun s => hf _ _ (hx s)

theorem bind {x : ReaderT ρ (StateM σ) α} {f : α → ReaderT ρ (StateM σ) β}
    (hf : ∀ a, EnsuresIn r I (f a)) : EnsuresIn r I (x >>= f) := fun _ => hf _ _

theorem forM {as : List α} {f : α → ReaderT ρ (StateM σ) PUnit} {a : α} (ha : a ∈ as)
    (h : EnsuresIn r I (f a)) (hkeeps : ∀ b ∈ as, KeepsIn r I (f b)) : EnsuresIn r I (as.forM f) := by
  induction as with
  | nil => cases ha
  | cons b as ih =>
    have hrest : ∀ c ∈ as, KeepsIn r I (f c) := fun c hc => hkeeps c (List.mem_cons_of_mem b hc)
    rcases List.mem_cons.1 ha with rfl | ha
    · exact bind_first h fun _ => .forM hrest
    · exact bind fun _ => ih ha hrest

end EnsuresIn

namespace GivesIn

variable {Q : α → Prop}

theorem pure {a : α} (ha : Q a) : GivesIn r I Q (Pure.pure a : ReaderT ρ (StateM σ) α) :=
  fun _ h => ⟨ha, h⟩

theorem bind {x : ReaderT ρ (StateM σ) β} {f : β → ReaderT ρ (StateM σ) α} (hx : KeepsIn r I x)
    (hf : ∀ b, GivesIn r I Q (f b)) : GivesIn r I Q (x >>= f) := fun s hs => hf _ _ (hx s hs)

end GivesIn

end DartAnalysis
