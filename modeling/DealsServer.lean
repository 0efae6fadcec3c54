import DealsServer.Lib.Run
import DealsServer.Lib.Decimal
import DealsServer.Lib.Quote
import DealsServer.Lib.Calendar
import DealsServer.Spec.Strings
import DealsServer.Spec.Http
import DealsServer.Spec.Types
import DealsServer.Spec.TopResult
import DealsServer.Spec.Tcp
import DealsServer.Spec.Server
import DealsServer.Spec.Deal
import DealsServer.Spec.SearchQuery
import DealsServer.Spec.Cheapest
import DealsServer.Spec.Search
import DealsServer.Spec.AddDeal
import DealsServer.Proof.Framing
import DealsServer.Proof.Splitting
import DealsServer.Proof.Parser
import DealsServer.Proof.Rounds
import DealsServer.Proof.OneExecution
import DealsServer.Proof.Fidelity
import DealsServer.Proof.Cheapest
import DealsServer.Proof.BuildQuery
import DealsServer.Proof.Uninit
import DealsServer.Proof.Dates
import DealsServer.Proof.Filters
import DealsServer.Proof.LiveRecords
import DealsServer.Lib.Selection
import DealsServer.Proof.Failures
import DealsServer.Proof.LocaleTop
import DealsServer.Proof.Output
import DealsServer.Proof.Phantoms
import DealsServer.Proof.Ranking
import DealsServer.Proof.Routes
import DealsServer.Proof.Segments
import DealsServer.Proof.Clearing
import DealsServer.Proof.DayCount
import DealsServer.Proof.Weekdays
import DealsServer.Proof.Texts
import DealsServer.Proof.Numbers
import DealsServer.Proof.Histories
import DealsServer.Proof.Narrowing
import DealsServer.Proof.Arrival
import DealsServer.Proof.DateGroups
import DealsServer.Proof.DatePairs
import DealsServer.Proof.ExactDate
import DealsServer.Proof.OneProcess
import DealsServer.Proof.KeptRecords
import DealsServer.Proof.LinkedTables
import DealsServer.Proof.RequestLine
import DealsServer.Spec.NameField
import DealsServer.Proof.PageNames
import DealsServer.Lib.Semaphore
import DealsServer.Spec.Locks
import DealsServer.Proof.TableLock
import DealsServer.Proof.AloneCalls
import DealsServer.Lib.Sequential
import DealsServer.Lib.Serial
import DealsServer.Proof.LockedSections
import DealsServer.Proof.HandedOut
import DealsServer.Proof.AllOrNothing
import DealsServer.Proof.History
import DealsServer.Spec.Service
import DealsServer.Proof.Responses
import DealsServer.Lib.Retention
import DealsServer.Proof.Shelf
import DealsServer.Proof.Ledger
import DealsServer.Proof.LedgerAnswers
import DealsServer.Proof.Shutdown
import DealsServer.Proof.Delivery
import DealsServer.Proof.Printed
