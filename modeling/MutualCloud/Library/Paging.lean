import Mathlib.Data.List.Sort
import Mathlib.Data.List.Count
import Mathlib.Order.Lattice

/-!
# Reading a collection page by page

A client reads a collection in pages of a fixed size and advances its offset by what it received,
until a page is empty. Each page is cut from an arrangement of the items by descending keys, and
the arrangements of two pages may differ in the order of items with equal keys.

Where a page ends between two keys, all arrangements have the same items before it (`take_perm`).
Where it ends among items with equal keys, two arrangements can differ there by a swap
(`exists_swap`), and then a client that sees the one before and the other after reads one item
twice.
-/

namespace Paging

variable {α κ : Type} [LinearOrder κ]

/-! ## Arrangements -/

/-- The list has the items, with descending keys. -/
structure Arranges (key : α → κ) (items l : List α) : Prop where
  perm : l.Perm items
  sorted : l.Pairwise fun a b => key b ≤ key a

/-- There are not items with one key on both sides of position `m`. -/
def Clean (key : α → κ) (items : List α) (m : ℕ) : Prop :=
  ∀ t, ¬ (items.countP (fun a => t < key a) < m ∧ m < items.countP fun a => t ≤ key a)

section Arrangements

variable {key : α → κ} {items l l' : List α} {m : ℕ}

/-- Every collection can be arranged. -/
theorem exists_arranges (key : α → κ) (items : List α) : ∃ l, Arranges key items l := by
  let r : α → α → Prop := fun a b => key b ≤ key a
  have htotal : Std.Total r := ⟨fun a b => le_total (key b) (key a)⟩
  have htrans : IsTrans α r := ⟨fun a b c hab hbc => le_trans hbc hab⟩
  classical
  exact ⟨items.insertionSort r, List.perm_insertionSort r items,
    List.pairwise_insertionSort r items⟩

/-- What is satisfied by the items from some key on is satisfied by the first ones only. -/
theorem split_at_count {p : α → Bool} (h : l.Pairwise fun a b => p b → p a) :
    l.take (l.countP p) = l.filter p ∧ ∀ a ∈ l.drop (l.countP p), p a = false := by
  induction l with
  | nil => simp
  | cons a rest ih =>
      obtain ⟨hfirst, hrest⟩ := List.pairwise_cons.mp h
      cases hp : p a with
      | true =>
          rw [List.countP_cons_of_pos hp, List.filter_cons_of_pos hp, List.take_succ_cons,
            List.drop_succ_cons]
          exact ⟨congrArg (a :: ·) (ih hrest).1, (ih hrest).2⟩
      | false =>
          have hnone : ∀ b ∈ a :: rest, p b = false := by
            intro b hb
            rcases List.mem_cons.mp hb with rfl | hb
            · exact hp
            · exact Bool.eq_false_iff.mpr fun hpb => by simp [hfirst b hb hpb] at hp
          have hcount : (a :: rest).countP p = 0 := by simpa [List.countP_eq_zero] using hnone
          rw [hcount]
          refine ⟨?_, hnone⟩
          rw [List.take_zero, eq_comm, List.filter_eq_nil_iff]
          exact fun b hb => by simp [hnone b hb]

/-- The items with keys above `t` come first. -/
theorem Arranges.above (h : Arranges key items l) (t : κ) :
    l.take (items.countP fun a => t < key a) = l.filter (fun a => t < key a) ∧
      ∀ a ∈ l.drop (items.countP fun a => t < key a), key a ≤ t := by
  rw [← h.perm.countP_eq]
  have hsplit := split_at_count (p := fun a => decide (t < key a)) (h.sorted.imp fun hab hb =>
    decide_eq_true ((of_decide_eq_true hb).trans_le hab))
  exact ⟨hsplit.1, fun a ha => not_lt.mp (of_decide_eq_false (hsplit.2 a ha))⟩

/-- The items with keys from `t` on come first. -/
theorem Arranges.upTo (h : Arranges key items l) (t : κ) :
    l.take (items.countP fun a => t ≤ key a) = l.filter (fun a => t ≤ key a) ∧
      ∀ a ∈ l.drop (items.countP fun a => t ≤ key a), key a < t := by
  rw [← h.perm.countP_eq]
  have hsplit := split_at_count (p := fun a => decide (t ≤ key a)) (h.sorted.imp fun hab hb =>
    decide_eq_true ((of_decide_eq_true hb).trans hab))
  exact ⟨hsplit.1, fun a ha => not_le.mp (of_decide_eq_false (hsplit.2 a ha))⟩

/-- Where a clean position ends, the items before it are those above a key. -/
theorem Arranges.clean_count (h : Arranges key items l) (hclean : Clean key items m)
    (hm : m < items.length) : ∃ t, items.countP (fun a => t < key a) = m := by
  have hlength : m < l.length := h.perm.length_eq ▸ hm
  refine ⟨key l[m], ?_⟩
  obtain ⟨habove, -⟩ := h.above (key l[m])
  obtain ⟨-, hbelow⟩ := h.upTo (key l[m])
  -- the item at the position is not above itself, and not below
  have hle : items.countP (fun a => key l[m] < key a) ≤ m := by
    by_contra hlt
    have hmem : l[m] ∈ l.take (items.countP fun a => key l[m] < key a) :=
      List.mem_take_iff_getElem.mpr ⟨m, by omega, rfl⟩
    rw [habove] at hmem
    simp at hmem
  have hlt : m < items.countP fun a => key l[m] ≤ key a := by
    by_contra hge
    have hmem : l[m] ∈ l.drop (items.countP fun a => key l[m] ≤ key a) :=
      List.mem_drop_iff_getElem.mpr ⟨m - items.countP fun a => key l[m] ≤ key a, by omega, by
        congr 1
        omega⟩
    exact lt_irrefl _ (hbelow _ hmem)
  have hnot := hclean (key l[m])
  omega

/-- All arrangements have the same items before a clean position. -/
theorem take_perm (h : Arranges key items l) (h' : Arranges key items l')
    (hclean : Clean key items m) : (l.take m).Perm (l'.take m) := by
  by_cases hm : m < items.length
  · obtain ⟨t, rfl⟩ := h.clean_count hclean hm
    rw [(h.above t).1, (h'.above t).1]
    exact (h.perm.trans h'.perm.symm).filter _
  · rw [List.take_of_length_le (by rw [h.perm.length_eq]; omega),
      List.take_of_length_le (by rw [h'.perm.length_eq]; omega)]
    exact h.perm.trans h'.perm.symm

/-- Two neighbours with equal keys can change places. -/
theorem Arranges.swap {before after : List α} {a b : α} (hkey : key a = key b)
    (h : Arranges key items (before ++ a :: b :: after)) :
    Arranges key items (before ++ b :: a :: after) := by
  refine ⟨((List.Perm.swap a b after).append_left before).trans h.perm, ?_⟩
  have hsorted := h.sorted
  rw [List.pairwise_append, List.pairwise_cons, List.pairwise_cons] at hsorted ⊢
  obtain ⟨hbefore, ⟨ha, hb, hafter⟩, hcross⟩ := hsorted
  refine ⟨hbefore, ⟨?_, fun c hc => ha c (List.mem_cons_of_mem b hc), hafter⟩, ?_⟩
  · intro c hc
    rcases List.mem_cons.mp hc with rfl | hc
    · exact hkey.le
    · exact hb c hc
  · intro c hc d hd
    exact hcross c hc d ((List.Perm.swap a b after).mem_iff.mp hd)

/-- On both sides of a position that is not clean there are items with one key. -/
theorem Arranges.equal_keys (h : Arranges key items l) (hclean : ¬ Clean key items m) :
    ∃ before a b after, l = before ++ a :: b :: after ∧ before.length + 1 = m ∧ key a = key b := by
  obtain ⟨t, hcount⟩ := not_forall.mp hclean
  obtain ⟨hlow, hhigh⟩ := not_not.mp hcount
  have hm : m < l.length := by
    rw [h.perm.length_eq]
    exact hhigh.trans_le List.countP_le_length
  have hkey : ∀ i, (hi : i < l.length) → m - 1 ≤ i → i ≤ m → key l[i] = t := by
    intro i hi hge hle
    have habove : l[i] ∈ l.drop (items.countP fun a => t < key a) := by
      refine List.mem_drop_iff_getElem.mpr ⟨i - items.countP fun a => t < key a, by omega, ?_⟩
      congr 1
      omega
    have hupTo : l[i] ∈ l.take (items.countP fun a => t ≤ key a) :=
      List.mem_take_iff_getElem.mpr ⟨i, by omega, rfl⟩
    rw [(h.upTo t).1] at hupTo
    exact le_antisymm ((h.above t).2 _ habove) (by simpa using (List.mem_filter.mp hupTo).2)
  refine ⟨l.take (m - 1), l[m - 1], l[m], l.drop (m + 1), ?_, ?_, ?_⟩
  · have hnext : m - 1 + 1 = m := by omega
    conv_lhs => rw [← List.take_append_drop (m - 1) l]
    rw [List.drop_eq_getElem_cons (by omega), List.drop_eq_getElem_cons (i := m - 1 + 1) (by omega)]
    simp only [hnext]
  · rw [List.length_take]
    omega
  · rw [hkey (m - 1) (by omega) (by omega) (by omega), hkey m hm (by omega) (by omega)]

/-- At a position that is not clean, two arrangements differ: an item stands before it in the one
and after it in the other. -/
theorem exists_swap (h : ¬ Clean key items m) :
    ∃ l l' a, Arranges key items l ∧ Arranges key items l' ∧ a ∈ l.take m ∧ a ∈ l'.drop m ∧
      m < items.length := by
  obtain ⟨l, hl⟩ := exists_arranges key items
  obtain ⟨before, a, b, after, rfl, rfl, hkey⟩ := hl.equal_keys h
  refine ⟨_, _, a, hl, hl.swap hkey, ?_, ?_, ?_⟩
  · rw [List.take_length_add_append]
    simp
  · rw [List.drop_length_add_append]
    simp
  · rw [← hl.perm.length_eq]
    simp

end Arrangements

/-! ## The walk -/

/-- What a client has after `k` requests, where `page k o` answers request `k` at offset `o`. -/
def received (page : ℕ → ℕ → List α) : ℕ → List α
  | 0 => []
  | k + 1 => received page k ++ page k (received page k).length

/-- Request `k` is the first one whose page is empty. -/
def EndsAt (page : ℕ → ℕ → List α) (k : ℕ) : Prop :=
  page k (received page k).length = [] ∧ ∀ j < k, page j (received page j).length ≠ []

/-- Request `k` is answered by a page of the arrangement `orders k`, at any offset up to the number
of the items. -/
def Answers (page : ℕ → ℕ → List α) (limit n : ℕ) (orders : ℕ → List α) : Prop :=
  ∀ k o, o ≤ n → page k o = ((orders k).drop o).take limit

section Walk

variable {key : α → κ} {items l l' : List α} {limit : ℕ} {page : ℕ → ℕ → List α}
  {orders : ℕ → List α}

/-- Every page but the last ones is full. -/
theorem received_length (horders : ∀ k, Arranges key items (orders k))
    (hpage : Answers page limit items.length orders) (k : ℕ) :
    (received page k).length = min (k * limit) items.length := by
  induction k with
  | zero => simp [received]
  | succ k ih =>
      have hle : (received page k).length ≤ items.length := by omega
      rw [received, hpage k _ hle, List.length_append, List.length_take, List.length_drop,
        (horders k).perm.length_eq, ih, Nat.succ_mul]
      omega

/-- The page that answers a request. -/
theorem page_eq (horders : ∀ k, Arranges key items (orders k))
    (hpage : Answers page limit items.length orders) (k : ℕ) :
    page k (received page k).length = ((orders k).drop (k * limit)).take limit := by
  have hlength := received_length horders hpage k
  have horder := (horders k).perm.length_eq
  rw [hpage k _ (by omega), hlength]
  by_cases hle : k * limit ≤ items.length
  · rw [min_eq_left hle]
  · rw [min_eq_right (by omega), List.drop_of_length_le (by omega),
      List.drop_of_length_le (by omega)]

/-- A page is empty once all items are counted. -/
theorem page_eq_nil_iff (horders : ∀ k, Arranges key items (orders k)) (hlimit : 0 < limit)
    (hpage : Answers page limit items.length orders) (k : ℕ) :
    page k (received page k).length = [] ↔ items.length ≤ k * limit := by
  rw [page_eq horders hpage, ← List.length_eq_zero_iff, List.length_take, List.length_drop,
    (horders k).perm.length_eq]
  omega

/-- The walk ends, whatever the arrangements are. -/
theorem exists_ends (horders : ∀ k, Arranges key items (orders k)) (hlimit : 0 < limit)
    (hpage : Answers page limit items.length orders) :
    ∃ k, EndsAt page k ∧ items.length ≤ k * limit := by
  have hend : ∃ k, items.length ≤ k * limit :=
    ⟨items.length, Nat.le_mul_of_pos_right _ hlimit⟩
  refine ⟨Nat.find hend, ⟨?_, ?_⟩, Nat.find_spec hend⟩
  · exact (page_eq_nil_iff horders hlimit hpage _).mpr (Nat.find_spec hend)
  · intro j hj hnil
    exact Nat.find_min hend hj ((page_eq_nil_iff horders hlimit hpage j).mp hnil)

/-- Where all pages end at clean positions, the client has the first items of any arrangement. -/
theorem received_perm (horders : ∀ k, Arranges key items (orders k))
    (hpage : Answers page limit items.length orders)
    (hclean : ∀ k, Clean key items (k * limit)) (hl : Arranges key items l) (k : ℕ) :
    (received page k).Perm (l.take (k * limit)) := by
  induction k generalizing l with
  | zero => simp [received]
  | succ k ih =>
      have hnext := page_eq horders hpage k
      have htake : (orders k).take ((k + 1) * limit) =
          (orders k).take (k * limit) ++ ((orders k).drop (k * limit)).take limit := by
        rw [Nat.succ_mul, List.take_add]
      calc received page (k + 1)
          = received page k ++ ((orders k).drop (k * limit)).take limit := by
            rw [received, hnext]
        List.Perm _ ((orders k).take (k * limit) ++ ((orders k).drop (k * limit)).take limit) :=
            (ih (horders k)).append_right _
        _ = (orders k).take ((k + 1) * limit) := htake.symm
        List.Perm _ (l.take ((k + 1) * limit)) := take_perm (horders k) hl (hclean (k + 1))

/-- A client that sees the same arrangement in each of its next requests. -/
theorem received_add (horders : ∀ k, Arranges key items (orders k))
    (hpage : Answers page limit items.length orders) {k j : ℕ}
    (hsame : ∀ i < j, orders (k + i) = l) :
    received page (k + j) = received page k ++ (l.drop (k * limit)).take (j * limit) := by
  induction j with
  | zero => simp
  | succ j ih =>
      rw [← Nat.add_assoc, received, page_eq horders hpage, ih fun i hi => hsame i (by omega),
        hsame j (by omega), List.append_assoc, Nat.succ_mul, List.take_add, List.drop_drop,
        Nat.add_mul]

/-- A client that sees another arrangement from request `k` on. -/
theorem received_changed (hl : Arranges key items l) (hl' : Arranges key items l') {k j : ℕ}
    (hpage : Answers page limit items.length fun i => if i < k then l else l')
    (hj : items.length ≤ j * limit) (hk : k * limit < items.length) :
    received page j = l.take (k * limit) ++ l'.drop (k * limit) := by
  have horders : ∀ i, Arranges key items (if i < k then l else l') := by
    intro i
    split
    · exact hl
    · exact hl'
  obtain ⟨d, rfl⟩ : ∃ d, j = k + d := by
    have hlt : k < j := Nat.lt_of_mul_lt_mul_right (hk.trans_le hj)
    exact ⟨j - k, by omega⟩
  have hfirst := received_add horders hpage (k := 0) (j := k) (l := l) fun i hi => by
    rw [Nat.zero_add]
    exact if_pos hi
  have hsecond := received_add horders hpage (k := k) (j := d) (l := l') fun i _ =>
    if_neg (by omega)
  rw [Nat.zero_add] at hfirst
  rw [hsecond, hfirst, List.take_of_length_le (i := d * limit)]
  · simp [received]
  · rw [List.length_drop, hl'.perm.length_eq]
    rw [Nat.add_mul] at hj
    omega

end Walk

end Paging
