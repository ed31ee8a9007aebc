import SystemProgrammingLab.Pa3.Framing
import SystemProgrammingLab.Pa3.Ledger
import SystemProgrammingLab.Pa3.Seats
import SystemProgrammingLab.Pa3.Session
import SystemProgrammingLab.Pa3.LoginRace
import SystemProgrammingLab.Pa3.Client
import SystemProgrammingLab.Pa3.Agreement
import SystemProgrammingLab.Pa3.Accept
import SystemProgrammingLab.Found.DList
import SystemProgrammingLab.Pa1.Index
import SystemProgrammingLab.Pa1.Input
import SystemProgrammingLab.Pa1.Search
import SystemProgrammingLab.Pa1.Lines
import SystemProgrammingLab.Pa1.Tokens
import SystemProgrammingLab.Pa1.Main
import SystemProgrammingLab.Found.Lines
import SystemProgrammingLab.Found.Ring
import SystemProgrammingLab.Week15.Fifo
import SystemProgrammingLab.Week15.Wakeup
import SystemProgrammingLab.Week10.Receipts
import SystemProgrammingLab.Week8.Counting
import SystemProgrammingLab.Week13.Relay
import SystemProgrammingLab.Week13.Broadcast
import SystemProgrammingLab.Week13.Users
import SystemProgrammingLab.Pa1.CaseBlind
import SystemProgrammingLab.Pa2.Render
import SystemProgrammingLab.Pa2.Leak
import SystemProgrammingLab.Pa2.Redirect
import SystemProgrammingLab.Pa2.Stuck
import SystemProgrammingLab.Week11.RoundTrip
import SystemProgrammingLab.Pa1.Phrase
import SystemProgrammingLab.Pa1.Regexp
import SystemProgrammingLab.Pa1.EmptyIndex
import SystemProgrammingLab.Pa1.Resolve
import SystemProgrammingLab.Pa1.Stdin
import SystemProgrammingLab.Pa1.Blanks
import SystemProgrammingLab.Pa3.Access
import SystemProgrammingLab.Pa3.Listing
import SystemProgrammingLab.Pa3.Validate
import SystemProgrammingLab.Pa3.Written
import SystemProgrammingLab.Pa3.Interrupt
import SystemProgrammingLab.Week13.Response
import SystemProgrammingLab.Pa2.Cp
import SystemProgrammingLab.Pa2.Tail
import SystemProgrammingLab.Pa2.Directory
import SystemProgrammingLab.Pa2.Order
import SystemProgrammingLab.Pa2.Safety
import SystemProgrammingLab.Pa1.Find
import SystemProgrammingLab.Pa1.Lists
import SystemProgrammingLab.Pa2.Lists
import SystemProgrammingLab.Week9.Shell
import SystemProgrammingLab.Week7.Cron
import SystemProgrammingLab.Week15.Completion
import SystemProgrammingLab.Pa3.Linear
import SystemProgrammingLab.Pa3.Answers
import SystemProgrammingLab.Week14.MonteCarlo
import SystemProgrammingLab.Pa1.Session
import SystemProgrammingLab.Week13.Conversation
import SystemProgrammingLab.Week10.Order
import SystemProgrammingLab.Pa3.Service
import SystemProgrammingLab.Pa2.Composition
import SystemProgrammingLab.Week9.Pipe
