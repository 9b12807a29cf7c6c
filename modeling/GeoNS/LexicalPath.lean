import Mathlib

/-!
# Lexical resolution of paths

A path is a list of components, each a name or a step to the parent. It is
resolved from a place without a look at any file system: a name is entered, a
step to the parent leaves the last name. Above the last name a rooted place
stays where it is and another one counts how far it has gone up.

In a file system a name may be a link to anywhere, so a step to the parent does not
undo the entry of a name. Only the root is known to be its own parent.
-/

namespace LexicalPath

variable {α : Type}

inductive Component (α : Type)
  | name (a : α)
  | parent
  deriving DecidableEq, Repr

structure Place (α : Type) where
  rooted : Bool
  up : Nat
  names : List α
  deriving DecidableEq, Repr

def Place.step (p : Place α) : Component α → Place α
  | .name a => { p with names := p.names ++ [a] }
  | .parent =>
    match p.names with
    | [] => if p.rooted then p else { p with up := p.up + 1 }
    | _ :: _ => { p with names := p.names.dropLast }

theorem Place.step_parent_nil {p : Place α} (h : p.names = []) :
    p.step .parent = if p.rooted then p else { p with up := p.up + 1 } := by
  simp only [Place.step, h]

theorem Place.step_parent_ne {p : Place α} (h : p.names ≠ []) :
    p.step .parent = { p with names := p.names.dropLast } := by
  obtain ⟨a, names, hnames⟩ := List.exists_cons_of_ne_nil h
  simp only [Place.step, hnames]

def Place.resolve (p : Place α) (path : List (Component α)) : Place α := path.foldl Place.step p

def Below (d p : Place α) : Prop := p.rooted = d.rooted ∧ p.up = d.up ∧ d.names <+: p.names

theorem Below.refl (d : Place α) : Below d d := ⟨rfl, rfl, List.prefix_rfl⟩

instance [DecidableEq α] (d p : Place α) : Decidable (Below d p) :=
  inferInstanceAs (Decidable (_ ∧ _ ∧ _))

@[simp] theorem Place.resolve_nil (p : Place α) : p.resolve [] = p := rfl

theorem Place.resolve_append (p : Place α) (path path' : List (Component α)) :
    p.resolve (path ++ path') = (p.resolve path).resolve path' := List.foldl_append

theorem Place.resolve_concat (p : Place α) (path : List (Component α)) (c : Component α) :
    p.resolve (path ++ [c]) = (p.resolve path).step c := p.resolve_append path [c]

/-- Where a path leads from a place that is not known: how many names it leaves
and the names it enters then. -/
def effect (path : List (Component α)) : Place α := (⟨false, 0, []⟩ : Place α).resolve path

theorem effect_concat (path : List (Component α)) (c : Component α) :
    effect (path ++ [c]) = (effect path).step c := Place.resolve_concat _ path c

theorem effect_rooted (path : List (Component α)) : (effect path).rooted = false := by
  induction path using List.reverseRecOn with
  | nil => rfl
  | append_singleton path c ih =>
    rw [effect_concat]
    cases c with
    | name a => exact ih
    | parent =>
      by_cases hnames : (effect path).names = []
      · rw [Place.step_parent_nil hnames, ih]
        rfl
      · rw [Place.step_parent_ne hnames]
        exact ih

/-- A path acts on a place by its effect. -/
theorem Place.resolve_eq (p : Place α) (path : List (Component α)) :
    p.resolve path =
      { rooted := p.rooted
        up := if p.rooted then p.up else p.up + ((effect path).up - p.names.length)
        names := p.names.take (p.names.length - (effect path).up) ++ (effect path).names } := by
  induction path using List.reverseRecOn with
  | nil => simp [effect]
  | append_singleton path c ih =>
    rw [Place.resolve_concat, effect_concat, ih]
    cases c with
    | name a => simp [Place.step]
    | parent =>
      by_cases hnames : (effect path).names = []
      case neg =>
        -- a name that the path itself has entered is left again
        rw [Place.step_parent_ne hnames, Place.step_parent_ne (by simp [hnames])]
        simp [List.dropLast_append_of_ne_nil hnames]
      case pos =>
        rw [Place.step_parent_nil hnames, effect_rooted, if_neg Bool.false_ne_true]
        simp only [hnames, List.append_nil]
        by_cases hinside : (effect path).up < p.names.length
        case pos =>
          have hne : p.names.take (p.names.length - (effect path).up) ≠ [] := by
            rw [Ne, List.take_eq_nil_iff]
            rintro (h | h)
            · omega
            · rw [h] at hinside
              exact Nat.not_lt_zero _ hinside
          rw [Place.step_parent_ne hne]
          have hup : (effect path).up - p.names.length = 0 := by omega
          have hup' : (effect path).up + 1 - p.names.length = 0 := by omega
          rw [hup, hup', List.dropLast_eq_take, List.take_take, List.length_take]
          congr 2
          omega
        case neg =>
          have hnil : p.names.length - (effect path).up = 0 := by omega
          have hnil' : p.names.length - ((effect path).up + 1) = 0 := by omega
          rw [Place.step_parent_nil (by rw [hnil, List.take_zero]), hnil, hnil']
          split
          · rfl
          · simp only [Place.mk.injEq, true_and, and_true]
            omega

/-- A path stays below the place it starts from if it leaves no name of the
place, or enters each one it leaves again. -/
theorem below_resolve_iff (d : Place α) (path : List (Component α)) :
    Below d (d.resolve path) ↔
      (d.rooted ∨ (effect path).up ≤ d.names.length) ∧
        d.names.drop (d.names.length - (effect path).up) <+: (effect path).names := by
  have hsplit := List.take_append_drop (d.names.length - (effect path).up) d.names
  have hprefix : d.names <+: d.names.take (d.names.length - (effect path).up) ++ (effect path).names ↔
      d.names.drop (d.names.length - (effect path).up) <+: (effect path).names := by
    generalize d.names.take (d.names.length - (effect path).up) = kept at hsplit ⊢
    generalize d.names.drop (d.names.length - (effect path).up) = left at hsplit ⊢
    rw [← hsplit, List.prefix_append_right_inj]
  rw [Below, Place.resolve_eq, hprefix]
  simp only [true_and]
  refine and_congr_left fun _ => ?_
  cases d.rooted with
  | true => simp
  | false =>
    simp only [Bool.false_eq_true, if_false, false_or]
    omega

-- ---------------------------------------------------------------------------
-- File systems
-- ---------------------------------------------------------------------------

structure Tree (α : Type) where
  Dir : Type
  root : Dir
  entry : Dir → α → Option Dir
  parent : Dir → Dir
  parent_root : parent root = root

def Tree.step (T : Tree α) (d : T.Dir) : Component α → Option T.Dir
  | .name a => T.entry d a
  | .parent => some (T.parent d)

def Tree.lookup (T : Tree α) (path : List (Component α)) : Option T.Dir := path.foldlM T.step T.root

/-- The paths from the root name one directory, or none, whatever is in the file system. -/
def Alike (p q : List (Component α)) : Prop := ∀ T : Tree α, T.lookup p = T.lookup q

/-- A path without its steps above the root. -/
def belowRoot : List (Component α) → List (Component α)
  | .parent :: path => belowRoot path
  | path => path

theorem belowRoot_name (a : α) (path : List (Component α)) : belowRoot (.name a :: path) = .name a :: path := rfl

theorem length_belowRoot_le (path : List (Component α)) : (belowRoot path).length ≤ path.length := by
  fun_induction belowRoot path with
  | case1 path ih => exact Nat.le_succ_of_le ih
  | case2 => exact Nat.le_refl _

theorem Tree.lookup_belowRoot (T : Tree α) (path : List (Component α)) : T.lookup (belowRoot path) = T.lookup path := by
  fun_induction belowRoot path with
  | case1 path ih =>
    have hroot : T.step T.root .parent = some T.root := congrArg some T.parent_root
    rw [ih, Tree.lookup, Tree.lookup, List.foldlM_cons, hroot]
    rfl
  | case2 => rfl

/-- Every path below the root is a directory of its own. -/
abbrev Tree.free (α : Type) : Tree α where
  Dir := List (Component α)
  root := []
  entry d a := some (d ++ [.name a])
  parent d := if d.isEmpty then [] else d ++ [.parent]
  parent_root := rfl

theorem Tree.free_foldlM {d : List (Component α)} (hd : d ≠ []) (path : List (Component α)) :
    path.foldlM (Tree.free α).step d = some (d ++ path) := by
  induction path generalizing d with
  | nil => exact congrArg some (List.append_nil d).symm
  | cons c path ih =>
    have hstep : (Tree.free α).step d c = some (d ++ [c]) := by
      cases c with
      | name a => rfl
      | parent => simp [Tree.step, Tree.free, hd]
    rw [List.foldlM_cons, hstep, Option.bind_eq_bind, Option.bind_some, ih (by simp)]
    simp

theorem Tree.free_lookup (path : List (Component α)) : (Tree.free α).lookup path = some (belowRoot path) := by
  rw [← Tree.lookup_belowRoot]
  fun_induction belowRoot path with
  | case1 path ih => exact ih
  | case2 path hpath =>
    cases path with
    | nil => rfl
    | cons c path =>
      cases c with
      | name a => exact Tree.free_foldlM (List.cons_ne_nil _ _) path
      | parent => exact absurd rfl (hpath path)

theorem alike_iff {p q : List (Component α)} : Alike p q ↔ belowRoot p = belowRoot q := by
  constructor
  · intro h
    have hfree := h (Tree.free α)
    rw [Tree.free_lookup, Tree.free_lookup] at hfree
    exact Option.some.inj hfree
  · intro h T
    rw [← T.lookup_belowRoot p, ← T.lookup_belowRoot q, h]

end LexicalPath
