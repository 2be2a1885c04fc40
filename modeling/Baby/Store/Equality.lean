import Baby.Store

/-! Equality of contents. Values of different types differ, arrays are compared element by element
and hashes by their keys and the values under them; functions are equal only to themselves. A pair
that is being compared further out counts as equal, so values that contain themselves are compared
by their structure. -/
namespace Baby.Store

def sameKeys (d e : Dict HashKey Entry) : Bool :=
  d.keys.all e.contains && e.keys.all d.contains

/-- Compares two values, nested at most `n` deep; nothing if they would have to be compared deeper. What
comes after the first difference is not compared. -/
def equalWithin (st : Store) : Nat → List (Value × Value) → Value → Value → Option Bool
  | 0, _, _, _ => none
  | n + 1, active, v, w =>
      if v = w then some true
      else
        match st.object? v, st.object? w with
        | some (.integer a), some (.integer b) => some (a = b)
        | some (.string a), some (.string b) => some (a = b)
        | some (.array xs), some (.array ys) =>
            if (v, w) ∈ active then some true
            else if xs.length = ys.length then
              (xs.zip ys).allM fun p => st.equalWithin n ((v, w) :: active) p.1 p.2
            else some false
        | some (.hash d), some (.hash e) =>
            if (v, w) ∈ active then some true
            else if sameKeys d e then
              d.entries.allM fun p =>
                match e.get? p.1 with
                | some q => st.equalWithin n ((v, w) :: active) p.2.value q.value
                | none => some false
            else some false
        | _, _ => some false

/-- No pair of objects is compared inside itself, so their number bounds the nesting. -/
def equal (st : Store) (v w : Value) : Bool :=
  st.equalWithin (st.objects.size * st.objects.size + 1) [] v w = some true

theorem equalSelf (st : Store) (v : Value) : st.equal v v = true := by
  simp [equal, equalWithin]

end Baby.Store
