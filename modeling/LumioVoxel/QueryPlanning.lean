import LumioVoxel.CanonicalObject
import LumioVoxel.QueryExecution

/-!
# Query planning

A planner is bound to an approved configuration and a section limit.  A plan
captures the canonical section list, the stamp it was made for and a hash over
both, so that nothing published later can change it.
-/

namespace LumioVoxel

open Fallible

/-! ## 1. The approved configuration -/

/-- A frozen configuration document.  Only a well-formed hash is accepted. -/
structure VoxelConfigSnapshot where
  configHash : String
  capabilities : List String
  configHash_isHash : isHash256 configHash = true

/-! ## 2. Requests -/

def QUERY_SCHEMA : String := "voxel-query"

structure VoxelQueryRequest where
  queryId : String
  worldId : String
  context : String
  sectionIds : List String
  cancel : Bool
  deriving DecidableEq, Repr

def QueryError.claimNotGranted : QueryError := ⟨"ClaimNotGranted"⟩

def validateRequest (request : VoxelQueryRequest) (stamp : RevisionStamp) :
    Except QueryError Unit := do
  require (request.cancel = false) .invalidHandle
  require (request.queryId ≠ "" ∧ request.worldId ≠ "" ∧ request.context ≠ "") .invalidHandle
  require (request.worldId = stamp.worldId ∧ request.context = stamp.contextId) .invalidHandle

/-- Section keys without repetitions, in section order. -/
def canonicalizeSections (ids : List String) : Except QueryError (List String) := do
  let parsed ← ids.mapM fun raw => (SectionId.parse raw).mapError QueryError.fromKey
  let set := parsed.foldl (fun (m : BTreeMap SectionId Unit) id => m.insert id ()) ∅
  return set.toList.map fun item => item.1.key

/-! ## 3. The planner -/

structure QueryPlanner where
  snapshot : VoxelConfigSnapshot
  maxSections : Nat

def planMembers (request : VoxelQueryRequest) (stamp : RevisionStamp) (sections : List String)
    (configHash : String) (budget : Nat) : List (String × CanonicalValue) :=
  [("schemaId", .text QUERY_SCHEMA),
   ("queryId", .text request.queryId),
   ("worldId", .text request.worldId),
   ("context", .text request.context),
   ("canonicalSections", .textArray sections),
   ("stampWorldId", .text stamp.worldId),
   ("stampContextId", .text stamp.contextId),
   ("generation", .uint stamp.generation),
   ("worldRevision", .uint stamp.worldRevision)] ++
  stamp.sectionRevisionSet.toList.map (fun item => ("sectionRevision." ++ item.1, .uint item.2)) ++
  [("configHash", .text configHash),
   ("maxSections", .uint (UInt64.ofNat budget))]

def computePlanHash (request : VoxelQueryRequest) (stamp : RevisionStamp) (sections : List String)
    (configHash : String) (budget : Nat) : Except QueryError Digest := do
  let object ← (CanonicalObject.new.insertAll
    (planMembers request stamp sections configHash budget)).mapError fun _ =>
      QueryError.invalidHandle
  return sha256 object.encodeBytes

namespace QueryPlanner

def fromApprovedSnapshot (snapshot : VoxelConfigSnapshot) (maxSections : Nat) :
    Except QueryError QueryPlanner := do
  require (maxSections ≠ 0) .budgetExceeded
  return ⟨snapshot, maxSections⟩

/-- The budget is charged with the section ids as they were requested, repetitions
included. -/
def plan (planner : QueryPlanner) (request : VoxelQueryRequest) (view : PublishedReadView)
    (config : VoxelConfigSnapshot) : Except QueryError QueryPlan := do
  let stamp := view.root.stamp
  validateRequest request stamp
  require (config.capabilities ≠ []) .claimNotGranted
  require (¬ budgetExceeds request.sectionIds.length planner.maxSections) .budgetExceeded
  let canonicalSections ← canonicalizeSections request.sectionIds
  let planHash ← computePlanHash request stamp canonicalSections config.configHash
    planner.maxSections
  return ⟨canonicalSections, stamp, planner.maxSections, config.configHash, request.queryId, planHash⟩

end QueryPlanner

end LumioVoxel
