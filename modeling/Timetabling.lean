import Timetabling.Ctt.Reader
import Timetabling.Json.Settings
import Timetabling.Layout
import Timetabling.Report
import Timetabling.Variation.Strategy
import Timetabling.Proofs.Instance.Coherence
import Timetabling.Proofs.Draft.Representation
import Timetabling.Proofs.Draft.History
import Timetabling.Proofs.Timetable.History
import Timetabling.Proofs.Random.Draw
import Timetabling.Proofs.Draft.Demand
import Timetabling.Proofs.Allotment
import Timetabling.Proofs.Rooming
import Timetabling.Proofs.Variation.Graft
import Timetabling.Proofs.Construction.Build
import Timetabling.Proofs.Variation.Mutation
import Timetabling.Proofs.Variation.Mutant
import Timetabling.Proofs.Report
import Timetabling.Proofs.Variation.Donation
import Timetabling.Proofs.Search
import Timetabling.Proofs.Construction.SlotWalk
import Timetabling.Proofs.Construction.Pass
import Timetabling.Proofs.Rerooming
import Timetabling.Proofs.Canonicity
import Timetabling.Proofs.Instance.Resolution
import Timetabling.Proofs.Instance.Diagnosis
import Timetabling.Proofs.Matching
import Timetabling.Proofs.Draft.Guarded
import Timetabling.Proofs.Checked.Tables
import Timetabling.Proofs.Checked.Rooms
import Timetabling.Proofs.Checked.Construction
import Timetabling.Proofs.Checked.Variation
import Timetabling.Proofs.Checked.Engine
import Timetabling.Proofs.Report.Hard
import Timetabling.Proofs.Report.Soft
import Timetabling.Proofs.Text.Blank
import Timetabling.Proofs.Ctt.Header
import Timetabling.Proofs.Ctt.Record
import Timetabling.Proofs.Ctt.Sheet
import Timetabling.Proofs.Ctt.Outline
import Timetabling.Proofs.Ctt.Layout
import Timetabling.Proofs.Ctt.RoundTrip
import Timetabling.Proofs.Checked.Reader
import Timetabling.Proofs.Ctt.Failure
import Timetabling.Proofs.Allotment.Rounds
import Timetabling.Proofs.Allotment.Afresh
import Timetabling.Proofs.Allotment.Efficiency
import Timetabling.Proofs.Layout.Solution
import Timetabling.Proofs.Allotment.Scarcity
import Timetabling.Proofs.Rooming.Lodging
import Timetabling.Proofs.Rooming.Probe
import Timetabling.Proofs.Timetable.Refusal
import Timetabling.Proofs.Draft.Replacement
import Timetabling.Proofs.Timetable.Replacement
import Timetabling.Proofs.Variation.Displacement
import Timetabling.Proofs.Variation.Locality
import Timetabling.Proofs.Construction.Escalation
import Timetabling.Proofs.Construction.Looseness
import Timetabling.Proofs.Random.Reach
import Timetabling.Proofs.Variation.Selection
import Timetabling.Proofs.Layout.Columns
