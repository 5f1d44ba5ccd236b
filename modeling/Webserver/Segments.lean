import Mathlib.Data.List.Basic

namespace Webserver.Segments

variable {α : Type}

/-- Store ys into the cells of xs from pos on. Cells past the end of xs do not
exist: what would go there is lost, and the length never changes. -/
def overwrite (xs : List α) (pos : Nat) (ys : List α) : List α :=
  xs.take pos ++ (ys.take (xs.length - pos) ++ xs.drop (pos + ys.length))

def window (xs : List α) (lo hi : Nat) : List α := (xs.take hi).drop lo

/-- Copy n cells inside xs, one after the other and front to back, as std::copy
does. A cell that was stored to is read again where the two ranges overlap. -/
def copyForward : (n src dst : Nat) → List α → List α
  | 0, _, _, xs => xs
  | n + 1, src, dst, xs =>
      copyForward n (src + 1) (dst + 1) (match xs[src]? with
        | some x => xs.set dst x
        | none => xs)

theorem map_modify_of_same {β : Type} {f : α → α} {g : α → β} (h : ∀ x, g (f x) = g x) (xs : List α) (i : Nat) :
    (xs.modify i f).map g = xs.map g := by
  induction xs generalizing i with
  | nil => rw [List.modify_nil]
  | cons x xs ih =>
      cases i with
      | zero => rw [List.modify_zero_cons, List.map_cons, List.map_cons, h]
      | succ i => rw [List.modify_succ_cons, List.map_cons, List.map_cons, ih]

theorem length_overwrite (xs ys : List α) (pos : Nat) : (overwrite xs pos ys).length = xs.length := by
  simp only [overwrite, List.length_append, List.length_take, List.length_drop]
  omega

theorem length_window (xs : List α) {lo hi : Nat} (h : hi ≤ xs.length) : (window xs lo hi).length = hi - lo := by
  simp [window, h]

theorem window_self (xs : List α) (lo : Nat) : window xs lo lo = [] := by
  apply List.drop_eq_nil_of_le
  rw [List.length_take]
  exact Nat.min_le_left _ _

theorem drop_window (xs : List α) (lo hi n : Nat) : (window xs lo hi).drop n = window xs (lo + n) hi := by
  simp [window, List.drop_drop]

theorem window_eq_take_drop (xs : List α) (lo hi : Nat) : window xs lo hi = (xs.drop lo).take (hi - lo) := by
  rw [window, List.drop_take]

theorem overwrite_eq (xs ys : List α) {pos : Nat} (h : pos + ys.length ≤ xs.length) :
    overwrite xs pos ys = xs.take pos ++ ys ++ xs.drop (pos + ys.length) := by
  have hys : ys.take (xs.length - pos) = ys := List.take_of_length_le (by omega)
  rw [overwrite, hys, List.append_assoc]

theorem window_overwrite (xs ys : List α) {lo pos : Nat} (hlo : lo ≤ pos) (hpos : pos + ys.length ≤ xs.length) :
    window (overwrite xs pos ys) lo (pos + ys.length) = window xs lo pos ++ ys := by
  have htake : (overwrite xs pos ys).take (pos + ys.length) = xs.take pos ++ ys := by
    rw [overwrite_eq xs ys hpos, List.take_left']
    rw [List.length_append, List.length_take, Nat.min_eq_left (by omega)]
  rw [window, htake, window, List.drop_append_of_le_length]
  rw [List.length_take, Nat.min_eq_left (by omega)]
  exact hlo

theorem window_overwrite_of_le (xs ys : List α) {lo hi pos : Nat} (hpos : pos ≤ xs.length) (h : hi ≤ pos) :
    window (overwrite xs pos ys) lo hi = window xs lo hi := by
  have htake : (overwrite xs pos ys).take hi = xs.take hi := by
    rw [overwrite, List.take_append_of_le_length (by rw [List.length_take]; omega), List.take_take, Nat.min_eq_left h]
  rw [window, htake, window]

theorem getElem?_overwrite_of_outside (xs ys : List α) {pos i : Nat} (hpos : pos + ys.length ≤ xs.length)
    (hi : i < pos ∨ pos + ys.length ≤ i) : (overwrite xs pos ys)[i]? = xs[i]? := by
  have hlen : (xs.take pos).length = pos := by
    rw [List.length_take]
    omega
  rw [overwrite_eq xs ys hpos, List.append_assoc]
  rcases hi with hi | hi
  · rw [List.getElem?_append_left (by omega), List.getElem?_take_of_lt hi]
  · rw [List.getElem?_append_right (by omega), List.getElem?_append_right (by omega), List.getElem?_drop, hlen]
    congr 1
    omega

theorem overwrite_cons {xs : List α} {pos : Nat} (h : pos < xs.length) (y : α) (ys : List α) :
    overwrite xs pos (y :: ys) = overwrite (xs.set pos y) (pos + 1) ys := by
  have htake : (xs.set pos y).take (pos + 1) = xs.take pos ++ [y] := by
    rw [List.take_add_one, List.take_set_of_le (Nat.le_refl pos)]
    simp [h]
  have hroom : xs.length - pos = xs.length - (pos + 1) + 1 := by omega
  have hdrop : (xs.set pos y).drop (pos + 1 + ys.length) = xs.drop (pos + (ys.length + 1)) := by
    rw [List.drop_set_of_lt (by omega)]
    congr 1
    omega
  simp only [overwrite, htake, hroom, hdrop, List.length_set, List.take_succ_cons, List.length_cons,
    List.append_assoc, List.singleton_append]
  rfl

theorem window_set_of_lt (xs : List α) {pos lo : Nat} (h : pos < lo) (y : α) (hi : Nat) :
    window (xs.set pos y) lo hi = window xs lo hi := by
  rw [window_eq_take_drop, window_eq_take_drop, List.drop_set_of_lt h]

theorem window_cons {xs : List α} {lo hi : Nat} (hlo : lo < xs.length) (hhi : lo < hi) :
    window xs lo hi = xs[lo] :: window xs (lo + 1) hi := by
  rw [window_eq_take_drop, List.drop_eq_getElem_cons hlo, window_eq_take_drop,
    show hi - lo = hi - (lo + 1) + 1 by omega, List.take_succ_cons]

/-- A copy towards the front gives what was there before it, also if the ranges overlap. -/
theorem copyForward_eq {xs : List α} {n src dst : Nat} (hdst : dst ≤ src) (hsrc : src + n ≤ xs.length) :
    copyForward n src dst xs = overwrite xs dst (window xs src (src + n)) := by
  induction n generalizing xs src dst with
  | zero => simp [copyForward, window_self, overwrite]
  | succ n ih =>
      have hlt : src < xs.length := by omega
      have hlen : src + 1 + n ≤ (xs.set dst xs[src]).length := by
        rw [List.length_set]
        omega
      simp only [copyForward, List.getElem?_eq_getElem hlt]
      rw [ih (Nat.succ_le_succ hdst) hlen, window_set_of_lt xs (Nat.lt_succ_of_le hdst), window_cons hlt (by omega),
        overwrite_cons (by omega)]
      congr 2
      omega

theorem overwrite_nil (xs : List α) (pos : Nat) : overwrite xs pos [] = xs := by
  simp [overwrite]

theorem set_eq_overwrite {xs : List α} {pos : Nat} (h : pos < xs.length) (y : α) :
    xs.set pos y = overwrite xs pos [y] := by
  rw [overwrite_cons h, overwrite_nil]

theorem overwrite_overwrite (xs ys zs : List α) {pos : Nat} (h : pos + ys.length + zs.length ≤ xs.length) :
    overwrite (overwrite xs pos ys) (pos + ys.length) zs = overwrite xs pos (ys ++ zs) := by
  induction ys generalizing xs pos with
  | nil => rw [overwrite_nil, List.nil_append, List.length_nil, Nat.add_zero]
  | cons y ys ih =>
      have hlen : pos + 1 + ys.length + zs.length ≤ (xs.set pos y).length := by
        rw [List.length_set]
        simp only [List.length_cons] at h
        omega
      have hpos : pos < xs.length := by
        simp only [List.length_cons] at h
        omega
      rw [List.cons_append, overwrite_cons hpos, overwrite_cons hpos, ← ih _ hlen, List.length_cons]
      congr 1
      omega

theorem overwrite_again (xs ys us zs : List α) {pos : Nat} (hlen : us.length = ys.length)
    (h : pos + (ys ++ zs).length ≤ xs.length) :
    overwrite (overwrite xs pos (ys ++ zs)) pos us = overwrite xs pos (us ++ zs) := by
  have hxs : (xs.take pos).length = pos := by
    rw [List.length_take]
    omega
  have hpre : (xs.take pos ++ ys).length = pos + us.length := by
    rw [List.length_append, hxs, hlen]
  rw [List.length_append] at h
  have hus : pos + us.length ≤ (overwrite xs pos (ys ++ zs)).length := by
    rw [length_overwrite]
    omega
  have hdrop : (overwrite xs pos (ys ++ zs)).drop (pos + us.length) = zs ++ xs.drop (pos + (ys ++ zs).length) := by
    rw [overwrite_eq xs _ (by rw [List.length_append]; omega), ← hpre, ← List.append_assoc, List.append_assoc _ zs]
    exact List.drop_left
  have htake : (overwrite xs pos (ys ++ zs)).take pos = xs.take pos := List.take_left' hxs
  rw [overwrite_eq _ us hus, hdrop, htake, overwrite_eq xs _ (by rw [List.length_append]; omega)]
  simp [hlen]

theorem window_overwrite_self (xs ys : List α) {pos : Nat} (hpos : pos + ys.length ≤ xs.length) :
    window (overwrite xs pos ys) pos (pos + ys.length) = ys := by
  rw [window_overwrite xs ys (Nat.le_refl pos) hpos, window_self, List.nil_append]

theorem window_overwrite_append (xs ys zs : List α) {pos : Nat} (h : pos + ys.length + zs.length ≤ xs.length) :
    window (overwrite xs pos (ys ++ zs)) pos (pos + ys.length) = ys := by
  have hys : pos + ys.length ≤ xs.length := by omega
  rw [← overwrite_overwrite _ _ _ h,
    window_overwrite_of_le _ _ (by rw [length_overwrite]; exact hys) (Nat.le_refl _), window_overwrite_self _ _ hys]

end Webserver.Segments
