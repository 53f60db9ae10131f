import Mathlib.Algebra.Group.Nat.Defs
import MapPlan.Digest.Fingerprint
import MapPlan.Proofs.Json.RoundTrip

/-!
# Framed objects can be told apart

The bytes that are digested are parts behind their lengths. A part that is a written JSON object
shows by itself where it ends, so the bytes determine such parts whatever the lengths say, and with
that also for parts whose length does not fit into eight bytes. Other parts are determined by the
bytes as long as their lengths fit.
-/

namespace MapPlan.Digest

variable {x y : List UInt8}

/-! ## Texts -/

theorem toList_loop (b : ByteArray) (i : Nat) (r : List UInt8) :
    ByteArray.toList.loop b i r = r.reverse ++ b.data.toList.drop i := by
  fun_induction ByteArray.toList.loop b i r with
  | case1 i r hi ih =>
    have hlt : i < b.data.toList.length := hi
    have hget : b.get! i = b.data.toList[i] := getElem!_pos b.data i hi
    rw [ih, List.drop_eq_getElem_cons hlt, hget, List.reverse_cons, List.append_assoc,
      List.singleton_append]
  | case2 i r hi =>
    have hle : b.data.toList.length ≤ i := Nat.le_of_not_lt hi
    rw [List.drop_eq_nil_of_le hle, List.append_nil]

theorem toByteArray_textBytes (s : String) : (textBytes s).toByteArray = s.toByteArray := by
  rw [textBytes, ByteArray.toList, toList_loop, List.reverse_nil, List.nil_append, List.drop_zero]
  ext1
  rw [List.data_toByteArray, Array.toArray_toList]
  rfl

theorem isPrefix_of_textBytes_append {s t : String} (h : textBytes s ++ x = textBytes t) :
    s.toList <+: t.toList := by
  have hbytes := congrArg List.toByteArray h
  rw [List.toByteArray_append, toByteArray_textBytes, toByteArray_textBytes,
    ← String.utf8Encode_toList, ← String.utf8Encode_toList] at hbytes
  exact List.isPrefix_of_utf8Encode_append_eq_utf8Encode _ hbytes

/-- Of two texts whose bytes agree as far as they go, one starts with the other. -/
theorem isPrefix_or_of_textBytes_append {s t : String} (h : textBytes s ++ x = textBytes t ++ y) :
    s.toList <+: t.toList ∨ t.toList <+: s.toList := by
  rcases List.append_eq_append_iff.1 h with ⟨z, ht, _⟩ | ⟨z, hs, _⟩
  · exact .inl (isPrefix_of_textBytes_append ht.symm)
  · exact .inr (isPrefix_of_textBytes_append hs.symm)

/-! ## Objects -/

variable {fields fields' : List (String × Json)}

theorem eq_of_isPrefix_compact
    (h : (Json.compact (.obj fields)).toList <+: (Json.compact (.obj fields')).toList) :
    fields = fields' := by
  obtain ⟨z, hz⟩ := h
  rw [Json.compact, Json.compact, String.toList_ofList, String.toList_ofList] at hz
  have hz : Json.compactChars (.obj fields) ++ z = Json.compactChars (.obj fields') ++ [] := by
    rw [hz, List.append_nil]
  cases (Json.compactChars_append_cancel (j := .obj fields) (k := .obj fields') trivial trivial
    hz).1
  rfl

theorem jsonBytes_append_cancel
    (h : jsonBytes (.obj fields) ++ x = jsonBytes (.obj fields') ++ y) :
    fields = fields' ∧ x = y := by
  obtain rfl : fields = fields' := by
    rcases isPrefix_or_of_textBytes_append h with hprefix | hprefix
    · exact eq_of_isPrefix_compact hprefix
    · exact (eq_of_isPrefix_compact hprefix).symm
  exact ⟨rfl, List.append_cancel_left h⟩

/-! ## Frames -/

theorem frame_cons (part : List UInt8) (parts : List (List UInt8)) :
    frame (part :: parts) = lengthBytes part.length ++ (part ++ frame parts) := by
  rw [frame, List.flatMap_cons, List.append_assoc]
  rfl

theorem length_frame_cons_pos (part : List UInt8) (parts : List (List UInt8)) :
    0 < (frame (part :: parts)).length := by
  rw [frame_cons, List.length_append]
  exact Nat.lt_of_lt_of_le (by decide : 0 < 8) (Nat.le_add_right _ _)

theorem frame_append (parts parts' : List (List UInt8)) :
    frame (parts ++ parts') = frame parts ++ frame parts' :=
  List.flatMap_append

/-- What is framed behind an object does not run into it. -/
theorem frame_cons_cancel
    (h : frame (jsonBytes (.obj fields) :: parts) ++ x =
      frame (jsonBytes (.obj fields') :: parts') ++ y) :
    fields = fields' ∧ frame parts ++ x = frame parts' ++ y := by
  rw [frame_cons, frame_cons, List.append_assoc, List.append_assoc, List.append_assoc,
    List.append_assoc] at h
  obtain ⟨_, h⟩ := List.append_inj h rfl
  exact jsonBytes_append_cancel h

/-- Objects before ends of one length are the same. -/
theorem frame_map_append_cancel {α : Type} {f : α → List (String × Json)} {l l' : List α}
    (hf : ∀ a b, f a = f b → a = b) (hlength : x.length = y.length)
    (h : frame (l.map fun a => jsonBytes (.obj (f a))) ++ x =
      frame (l'.map fun a => jsonBytes (.obj (f a))) ++ y) :
    l = l' ∧ x = y := by
  have hlengths := congrArg List.length h
  rw [List.length_append, List.length_append, hlength, Nat.add_right_cancel_iff] at hlengths
  induction l generalizing l' with
  | nil =>
    cases l' with
    | nil => exact ⟨rfl, h⟩
    | cons b l' => exact absurd hlengths (Nat.ne_of_lt (length_frame_cons_pos _ _))
  | cons a l ih =>
    cases l' with
    | nil => exact absurd hlengths (Nat.ne_of_gt (length_frame_cons_pos _ _))
    | cons b l' =>
      obtain ⟨hfields, hrest⟩ := frame_cons_cancel h
      have hrests := congrArg List.length hrest
      rw [List.length_append, List.length_append, hlength, Nat.add_right_cancel_iff] at hrests
      obtain ⟨rfl, hends⟩ := ih hrest hrests
      exact ⟨by rw [hf a b hfields], hends⟩

/-! ## Parts of any kind -/

theorem length_lowBytes (count n : Nat) : (lowBytes count n).length = count := by
  induction count generalizing n with
  | zero => rfl
  | succ count ih => exact congrArg (· + 1) (ih _)

/-- A number below the power of 256 is told by its lowest bytes. -/
theorem eq_of_lowBytes_eq {count n m : Nat} (hn : n < 256 ^ count) (hm : m < 256 ^ count)
    (h : lowBytes count n = lowBytes count m) : n = m := by
  induction count generalizing n m with
  | zero => omega
  | succ count ih =>
    obtain ⟨hfirst, hrest⟩ := List.cons.inj h
    have hlow : n % 256 = m % 256 := congrArg UInt8.toNat hfirst
    rw [Nat.pow_succ] at hn hm
    have hhigh := ih (Nat.div_lt_of_lt_mul (by omega)) (Nat.div_lt_of_lt_mul (by omega)) hrest
    omega

/-- Parts whose lengths fit into eight bytes are told by what is framed. -/
theorem eq_of_frame_eq {parts parts' : List (List UInt8)}
    (hparts : ∀ part ∈ parts, part.length < 2 ^ 64)
    (hparts' : ∀ part ∈ parts', part.length < 2 ^ 64) (h : frame parts = frame parts') :
    parts = parts' := by
  have hlengths := congrArg List.length h
  induction parts generalizing parts' with
  | nil =>
    cases parts' with
    | nil => rfl
    | cons part' parts' => exact absurd hlengths (Nat.ne_of_lt (length_frame_cons_pos _ _))
  | cons part parts ih =>
    cases parts' with
    | nil => exact absurd hlengths (Nat.ne_of_gt (length_frame_cons_pos _ _))
    | cons part' parts' =>
      obtain ⟨hpart, hothers⟩ := List.forall_mem_cons.1 hparts
      obtain ⟨hpart', hothers'⟩ := List.forall_mem_cons.1 hparts'
      rw [frame_cons, frame_cons] at h
      obtain ⟨hlength, h⟩ := List.append_inj h rfl
      obtain ⟨rfl, hrest⟩ := List.append_inj h (eq_of_lowBytes_eq hpart hpart' hlength)
      rw [ih hothers hothers' hrest (congrArg List.length hrest)]

theorem textBytes_injective {s t : String} (h : textBytes s = textBytes t) : s = t := by
  have hbytes := congrArg List.toByteArray h
  rw [toByteArray_textBytes, toByteArray_textBytes] at hbytes
  exact String.toByteArray_inj.1 hbytes

theorem length_textBytes (s : String) : (textBytes s).length = s.utf8ByteSize := by
  have hsize := congrArg ByteArray.size (toByteArray_textBytes s)
  rwa [List.size_toByteArray] at hsize

/-! ## Digests -/

theorem length_blake3 (bytes : List UInt8) : (blake3 bytes).bytes.length = 32 := by
  have hword : ∀ w, (Blake3.wordBytes w).length = 4 := fun _ => rfl
  simp only [blake3, Blake3.hash, List.length_flatMap, hword, List.map_const',
    List.sum_replicate_nat, Vector.length_toList]

end MapPlan.Digest
