import VitaDebugger.PmuObligation
import VitaDebugger.MutationRestore
import VitaDebugger.StopResume
import VitaDebugger.ConsoleDelivery
import VitaDebugger.ConsoleAccounting
import VitaDebugger.EventCalls
import VitaDebugger.ReaderAgreement
import VitaDebugger.ArmLoad
import VitaDebugger.BrokerService
import VitaDebugger.PatchSlotRuns
import VitaDebugger.TransactionRuns
import VitaDebugger.OrdinaryStep
import VitaDebugger.RearmRecords
import VitaDebugger.FailedClient
import VitaDebugger.StopReply
import VitaDebugger.ThreadSelection
import VitaDebugger.ExceptionHandlers
import VitaDebugger.MemoryReply
import VitaDebugger.WireRoundTrip
import VitaDebugger.AuthBackoff
import VitaDebugger.AuthListener
import VitaDebugger.PackageAgreement
import VitaDebugger.SfoTitle
import VitaDebugger.JobResults
import VitaDebugger.ClockDivision
import VitaDebugger.DirectIntake
import VitaDebugger.StopOwner
import VitaDebugger.ItBlockStep
