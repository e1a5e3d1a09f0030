import Reshape.Store

/-!
This module contains the sets that values hold as plain data. A value none of whose sets is known to
a store is not changed by refreshing it.
-/

namespace Reshape

namespace Value

mutual

/--
The handles of the operation sets in a value, but for those in the records of other sets.
-/
def handles : Value → List Nat
  | .list items => handlesOfItems items
  | .tuple items => handlesOfItems items
  | .object fields => handlesOfFields fields
  | .operationSet handle _ => [handle]
  | _ => []

@[inherit_doc handles]
def handlesOfItems : List Value → List Nat
  | [] => []
  | v :: vs => handles v ++ handlesOfItems vs

@[inherit_doc handles]
def handlesOfFields : List (Key × Value) → List Nat
  | [] => []
  | (_, v) :: fields => handles v ++ handlesOfFields fields

end

section Refresh

variable {records : Nat → Option (List Value)}

mutual

theorem refresh_of_handles
    : ∀ v : Value, (∀ handle ∈ v.handles, records handle = none) → v.refresh records = v
  | .list items, h => by rw [refresh, refreshItems_of_handles items h]
  | .tuple items, h => by rw [refresh, refreshItems_of_handles items h]
  | .object fields, h => by rw [refresh, refreshFields_of_handles fields h]
  | .operationSet handle old, h => by
    rw [refresh, h handle (List.mem_singleton_self handle)]
    rfl
  | .null, _ | .bool _, _ | .int _, _ | .float _, _ | .str _, _ | .function _, _ | .path _, _
  | .missing, _ => rfl

theorem refreshItems_of_handles
    : ∀ items : List Value, (∀ handle ∈ handlesOfItems items, records handle = none) →
        refreshItems records items = items
  | [], _ => rfl
  | v :: vs, h => by
    rw [handlesOfItems] at h
    rw [refreshItems, refresh_of_handles v, refreshItems_of_handles vs]
    · exact fun handle hv => h handle (List.mem_append_right _ hv)
    · exact fun handle hv => h handle (List.mem_append_left _ hv)

theorem refreshFields_of_handles
    : ∀ fields : List (Key × Value), (∀ handle ∈ handlesOfFields fields, records handle = none) →
        refreshFields records fields = fields
  | [], _ => rfl
  | (k, v) :: fields, h => by
    rw [handlesOfFields] at h
    rw [refreshFields, refresh_of_handles v, refreshFields_of_handles fields]
    · exact fun handle hv => h handle (List.mem_append_right _ hv)
    · exact fun handle hv => h handle (List.mem_append_left _ hv)

end

end Refresh

end Value

/--
The handles of the operation sets in the payloads of a record.
-/
def Record.handles (record : Record) : List Nat :=
  record.operations.flatMap fun operation => operation.2.handles

theorem Record.mapPayloads_refresh {records : Nat → Option (List Value)} {record : Record}
    (h : ∀ handle ∈ record.handles, records handle = none)
    : record.mapPayloads (Value.refresh records) = record := by
  unfold Record.mapPayloads
  have hentries : record.entries.map (Entry.mapPayload (Value.refresh records)) =
      record.entries := by
    conv =>
      rhs
      rw [← List.map_id record.entries]
    apply List.map_congr_left
    intro entry hentry
    cases entry with
    | tag spelling label => rfl
    | operation spelling op payload =>
      rw [Entry.mapPayload, Value.refresh_of_handles payload]
      · rfl
      · intro handle hhandle
        apply h
        unfold Record.handles Record.operations
        rw [List.mem_flatMap]
        refine ⟨(op, payload), ?_, hhandle⟩
        rw [List.mem_filterMap]
        exact ⟨_, hentry, rfl⟩
  rw [hentries]

namespace Store

theorem recordValues?_of_lt {store : Store} {handle : Nat} (h : handle < store.start) (depth : Nat)
    : store.recordValues? depth handle = none := by
  cases depth with
  | zero => rfl
  | succ depth =>
    rw [recordValues?, held?, if_neg (by omega)]
    rfl

/--
All sets in the payloads of a store come from elsewhere.
-/
def Settled (store : Store) : Prop :=
  ∀ set ∈ store.sets, ∀ record ∈ set.records, ∀ handle ∈ record.handles, handle < store.start

theorem set?_of_settled {store : Store} (h : store.Settled) (handle : Nat)
    : store.set? handle = store.held? handle := by
  unfold set?
  cases hset : store.held? handle with
  | none => rfl
  | some set =>
    have hmem : set ∈ store.sets := by
      unfold held? at hset
      split at hset
      · exact List.mem_of_getElem? hset
      · cases hset
    -- Each handle in the payloads is below those of the store, so none of them is looked up.
    have hrecords : set.records.map (Record.mapPayloads
        (Value.refresh (store.recordValues? store.sets.length))) = set.records := by
      conv =>
        rhs
        rw [← List.map_id set.records]
      apply List.map_congr_left
      intro record hrecord
      apply Record.mapPayloads_refresh
      intro handle hhandle
      apply recordValues?_of_lt
      exact h set hmem record hrecord handle hhandle
    rw [Option.map_some]
    dsimp only
    rw [hrecords]

end Store
end Reshape
