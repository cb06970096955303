import HSFinancialServices.Protocol
import HSFinancialServices.Lib.TextSearch
import HSFinancialServices.Lib.FlatObject
import HSFinancialServices.Ui.Protocol
import HSFinancialServices.Lib.JsonGrammar
import HSFinancialServices.Lib.JsonScanner
import HSFinancialServices.Lib.JsonScannerSound
import HSFinancialServices.Lib.Framing
import HSFinancialServices.Router
import HSFinancialServices.Session
import HSFinancialServices.SessionStream
import HSFinancialServices.Lib.Transitions
import HSFinancialServices.SessionRun
import HSFinancialServices.LoadGen.ClientSession
import HSFinancialServices.LoadGen.Framing
import HSFinancialServices.Lib.Congruential
import HSFinancialServices.Lib.LatticeCover
import HSFinancialServices.LoadGen.Requests
import HSFinancialServices.LoadGen.RequestMix
import HSFinancialServices.LoadGen.Walk
import HSFinancialServices.LoadGen.PickWindow
import HSFinancialServices.LoadGen.LoadTest
import HSFinancialServices.LoadGen.Accounting
import HSFinancialServices.LoadGen.Successes
import HSFinancialServices.Lib.OrderStatistics
import HSFinancialServices.LoadGen.Report
import HSFinancialServices.Ui.Fields
import HSFinancialServices.OrderTexts
import HSFinancialServices.Ui.Reports
import HSFinancialServices.Services.Fields
import HSFinancialServices.Services.Handlers
import HSFinancialServices.Services.PriceHistory
import HSFinancialServices.Services.Registry
import HSFinancialServices.Services.ResponseSize
import HSFinancialServices.Services.FieldsAsJson
import HSFinancialServices.Lib.JsonSplice
import HSFinancialServices.Services.WellFormed
import HSFinancialServices.Services.JsonResponses
import HSFinancialServices.Server
import HSFinancialServices.Accounting
import HSFinancialServices.AcceptLoop
import HSFinancialServices.ServerStreams
import HSFinancialServices.Services.OrderIdentity
import HSFinancialServices.UntroubledSession
import HSFinancialServices.Services.Isolation
import HSFinancialServices.RequestCount
import HSFinancialServices.ResponseType
import HSFinancialServices.AsyncSession
import HSFinancialServices.Services.ResponseBound
import HSFinancialServices.Ui.Transport
import HSFinancialServices.Ui.Commands
import HSFinancialServices.Ui.Responses
import HSFinancialServices.Services.DeclaredTypes
import HSFinancialServices.Services.CandlePrices
import HSFinancialServices.Services.Calendar
import HSFinancialServices.Lib.JsonCompact
import HSFinancialServices.Services.SqlEcho
import HSFinancialServices.Ui.SqlText
import HSFinancialServices.Lib.TextPieces
import HSFinancialServices.Ui.Scans
import HSFinancialServices.Ui.ScannedResponses
import HSFinancialServices.Ui.Dialog
import HSFinancialServices.HeaderFormat
import HSFinancialServices.LoadGen.RandomStream
import HSFinancialServices.LoadGen.RequestShares
import HSFinancialServices.HandlerFailure
import HSFinancialServices.Registration
import HSFinancialServices.Services.CharacterClasses
import HSFinancialServices.Ui.TransportProgress
import HSFinancialServices.Lib.AtomicCalls
import HSFinancialServices.LoadGen.ResponseStream
import HSFinancialServices.LoadGen.RequestTexts
import HSFinancialServices.LoadGen.Stopping
import HSFinancialServices.LoadGen.Latencies
import HSFinancialServices.Buffers
import HSFinancialServices.Histories
import HSFinancialServices.Ui.Screen
import HSFinancialServices.System.Network
import HSFinancialServices.System.Conversations
import HSFinancialServices.System.Linearizable
import HSFinancialServices.System.Answers
import HSFinancialServices.System.Admission
import HSFinancialServices.System.Calm
import HSFinancialServices.System.Drain
import HSFinancialServices.System.Books
import HSFinancialServices.System.Reproducible
